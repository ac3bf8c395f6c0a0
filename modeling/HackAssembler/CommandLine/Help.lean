import HackAssembler.Output.Words

/-! What the command line says about itself. -/
namespace HackAssembler.CommandLine

def version : Text := "1.0.0"

def versionText : Text := "hackasm, version " ++ version ++ "\n"

def usageLine : Text := "Usage: hackasm [OPTIONS] INPUT_FILE"

def helpText : Text :=
  Output.terminated
    [usageLine,
      "",
      "  Assemble Hack assembly source into Hack machine code.",
      "",
      "  INPUT_FILE is the assembly source file (.asm) to assemble.",
      "",
      "  Examples:",
      "      hackasm Max.asm              # Outputs Max.hack",
      "      hackasm Max.asm -o out.hack  # Specify output file",
      "      hackasm Max.asm --stdout     # Print the words",
      "",
      "Options:",
      "  -o, --output FILE               Output .hack file (default: input with .hack",
      "                                  suffix)",
      "  -s, --symbols FILE              Generate symbol file",
      "  -l, --listing FILE              Generate listing file",
      "  --stdout                        Write machine code to standard output instead",
      "                                  of a file",
      "  --strict-labels / --no-strict-labels",
      "                                  Reject labels declared more than once.",
      "                                  Default: off, or HACKASM_STRICT_LABELS.",
      "  -v, --verbose                   Verbose output",
      "  --version                       Show the version and exit.",
      "  --help                          Show this message and exit."]

end HackAssembler.CommandLine
