import Registrar.CommandLine.Basic

/-!
# Explanations

What the program says about itself and its commands.
-/

namespace Registrar.Topic

/-- The lines of an explanation. -/
def helpLines : Topic → List String
  | program =>
    ["Reflection code generator for the Mundi engine",
     "",
     "Usage: mundi-reflect <COMMAND>",
     "",
     "Commands:",
     "  generate  Scan the source tree and emit .generated.h / .generated.cpp files",
     "  parse     Parse one header and print the classified entity as JSON",
     "  clean     Delete the build cache",
     "  help      Print this message or the help of the given subcommand(s)",
     "",
     "Options:",
     "  -h, --help  Print help"]
  | generate =>
    ["Scan the source tree and emit .generated.h / .generated.cpp files",
     "",
     "Usage: mundi-reflect generate [OPTIONS]",
     "",
     "Options:",
     "      --config <CONFIG>  Path to mundi-reflect.toml [default: mundi-reflect.toml]",
     "      --force            Ignore the build cache and re-render every header",
     "  -h, --help             Print help"]
  | parse =>
    ["Parse one header and print the classified entity as JSON",
     "",
     "Usage: mundi-reflect parse [OPTIONS] <HEADER>",
     "",
     "Arguments:",
     "  <HEADER>  ",
     "",
     "Options:",
     "      --macro-header <MACRO_HEADER>  Header with the ADD_PROPERTY_* definitions",
     "  -h, --help                         Print help"]
  | clean =>
    ["Delete the build cache",
     "",
     "Usage: mundi-reflect clean [OPTIONS]",
     "",
     "Options:",
     "      --config <CONFIG>  Path to mundi-reflect.toml [default: mundi-reflect.toml]",
     "  -h, --help             Print help"]
  | help =>
    ["Print this message or the help of the given subcommand(s)",
     "",
     "Usage: mundi-reflect help [COMMAND]...",
     "",
     "Arguments:",
     "  [COMMAND]...  Print help for the subcommand(s)"]

/-- The explanation of a topic. -/
def explanation (topic : Topic) : Text :=
  topic.helpLines.flatMap fun line => line.toList ++ ['\n']

end Registrar.Topic
