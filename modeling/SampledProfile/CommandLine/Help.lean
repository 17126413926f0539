/-
# Help

The text that help shows, for the program as a whole and for each of its commands, laid out for a
terminal of 80 columns.
-/
import SampledProfile.CommandLine.Switch

namespace SampledProfile
namespace Help

/-- The lines about the program as a whole. -/
def generalLines : List String := [
  "usage: cpuprofile [-h] \x7bsummary,export\x7d ...",
  "",
  "CPU profile command line tool.",
  "",
  "positional arguments:",
  "  \x7bsummary,export\x7d  sub-command help",
  "    summary         show profile summary",
  "    export          export profile data",
  "",
  "options:",
  "  -h, --help        show this help message and exit"]

/-- The lines about the options that both commands know, and the file. -/
def sharedLines : List String := [
  "",
  "positional arguments:",
  "  file_path             cpu profile file path",
  "",
  "options:",
  "  -h, --help            show this help message and exit",
  "  -i INDEX, --index INDEX",
  "                        profile index in the file",
  "  -k, --keep_natives    keep native frames",
  "  -v, --verbose         show verbose info"]

/-- The lines about a command. -/
def commandLines : Command → List String
  | .summarize =>
    ["usage: cpuprofile summary [-h] [-i INDEX] [-k] [-v] [-n TOP] file_path"] ++ sharedLines ++
      ["  -n TOP, --top TOP     number of top nodes"]
  | .exportReport =>
    ["usage: cpuprofile export [-h] [-i INDEX] [-k] [-v] [-o OUTPUT]",
      "                         [-t EXPORT_TYPE] [-f]",
      "                         file_path"] ++ sharedLines ++
      ["  -o OUTPUT, --output OUTPUT",
        "                        export output path",
        "  -t EXPORT_TYPE, --type EXPORT_TYPE",
        "                        output data type",
        "  -f, --force           force export"]

/-- The text of help. -/
def text (command : Option Command) : String :=
  let lines := (command.map commandLines).getD generalLines
  String.join (lines.map fun line => line ++ "\n")

end Help
end SampledProfile
