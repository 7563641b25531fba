
namespace Bhasha.Command

def versionText : String := "3.0.0"

def mainUsage : String :=
  "usage: merilang [-h] [--version] \x7brun,repl,version\x7d ...\n"

def runUsage : String :=
  "usage: merilang run [-h] [--debug] [--ir] [--no-semantic] file\n"

def replUsage : String :=
  "usage: merilang repl [-h] [--ir] [--no-semantic]\n"

def versionUsage : String :=
  "usage: merilang version [-h]\n"

def mainHelp : String :=
  mainUsage ++ "
Merilang – a desi-inspired programming language

positional arguments:
  \x7brun,repl,version\x7d  Sub-command
    run               Run a Merilang script file
    repl              Start interactive REPL
    version           Show version information

options:
  -h, --help          show this help message and exit
  --version           show program's version number and exit

Examples:
  merilang run script.meri            Run a Merilang script
  merilang run script.meri --debug    Run with debug output (tokens + AST)
  merilang run script.meri --ir       Print 3AC IR before running
  merilang run script.meri --no-semantic  Skip semantic analysis
  merilang repl                       Start interactive REPL
  merilang repl --ir                  REPL with IR output
  merilang version                    Show version information
        
"

def runHelp : String :=
  runUsage ++ "
positional arguments:
  file           Path to .meri script

options:
  -h, --help     show this help message and exit
  --debug        Print tokens, AST, and section banners
  --ir           Print Three-Address Code IR before executing
  --no-semantic  Skip the semantic analysis pass (faster, less safe)
"

def replHelp : String :=
  replUsage ++ "
options:
  -h, --help     show this help message and exit
  --ir           Show IR output for each evaluated expression
  --no-semantic  Skip semantic analysis in REPL
"

def versionHelp : String :=
  versionUsage ++ "
options:
  -h, --help  show this help message and exit
"

end Bhasha.Command
