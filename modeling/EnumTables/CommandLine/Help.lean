/-
What is shown instead of running a command: help, the version, and the
complaint about a command line that cannot be read.

* **`UsageError.stdout`** goes to the standard output, **`UsageError.stderr`**
  to the standard error stream.
-/
import EnumTables.CommandLine.Basic

namespace EnumTables

/-- The help page. -/
def helpPage : Text :=
  "Generate markdown tables from documented enum constants

Usage: enumdoc [OPTIONS] <COMMAND>

Commands:
  generate  Write one markdown file per source file with documented enums
              -s, --source <SOURCE>  Directory to scan (overrides project.base_dir)
              -o, --output <OUTPUT>  Output directory (overrides project.output_dir)
  preview   Print the tables of a single file to stdout
              <FILE>                 Source file to render
              -f, --format <FORMAT>  Output format: markdown (default) or json
  init      Write a default enumdoc.toml
              -p, --path <PATH>      Target directory (defaults to current directory)
              --force                Overwrite an existing config file
  help      Print this message

Options:
  -c, --config <CONFIG>  Path to configuration file
  -v, --verbose          Enable verbose logging
  -h, --help             Print help
  -V, --version          Print version
".toList

namespace UsageError

/-- What is wrong with the command line, in words. -/
def complaint : UsageError → Text
  | invalidValue => "a value is missing or not allowed".toList
  | unknownArgument => "unexpected argument found".toList
  | invalidSubcommand => "unrecognized subcommand".toList
  | tooManyValues => "unexpected value for an option that takes none".toList
  | missingRequiredArgument => "a required argument was not provided: <FILE>".toList
  | missingSubcommand => "a subcommand is required but was not provided".toList
  | argumentConflict => "an option cannot be used multiple times".toList
  | displayHelp => []
  | displayVersion => []
  | displayHelpOnMissing => []

/-- What goes to the standard output. -/
def stdout : UsageError → Text
  | displayHelp => helpPage
  | displayVersion => "enumdoc 0.1.0\n".toList
  | _ => []

/-- What goes to the standard error stream. -/
def stderr : UsageError → Text
  | displayHelp => []
  | displayVersion => []
  | displayHelpOnMissing => helpPage
  | e => "error: ".toList ++ e.complaint ++ "\n\nFor more information, try '--help'.\n".toList

end UsageError

end EnumTables
