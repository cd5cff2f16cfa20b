namespace TruthTables.CommandLine

def programName : String := "tabula"

def usage : String :=
  "usage: tabula [-h] [-f FORMULA_FILE] [--full] [--forms-only] [-q] [--debug]\n"
    ++ "              [formula]\n"

def help : String :=
  usage
    ++ "\n"
    ++ "Tabula truth tables and canonical normal forms\n"
    ++ "\n"
    ++ "positional arguments:\n"
    ++ "  formula               Formula text\n"
    ++ "\n"
    ++ "options:\n"
    ++ "  -h, --help            show this help message and exit\n"
    ++ "  -f FORMULA_FILE, --formula-file FORMULA_FILE\n"
    ++ "                        Path to a file containing the formula\n"
    ++ "  --full                Include every sub-expression as a truth table column\n"
    ++ "  --forms-only          Print only the canonical forms, not the table rows\n"
    ++ "  -q, --quiet           Only report warnings and errors; exit code tells\n"
    ++ "                        whether the formula is valid\n"
    ++ "  --debug               Enable debug output (overrides --quiet)\n"
    ++ "\n"
    ++ "Examples:\n"
    ++ "  python run_truth_table.py \"(¬(((¬x2)+x3)•(¬(x1•x3))))\"\n"
    ++ "  python run_truth_table.py -f formula.txt --full\n"
    ++ "  python run_truth_table.py \"(x1>x2)\" --forms-only --debug\n"
    ++ "  python run_truth_table.py \"(x1>x2)\" --quiet\n"
    ++ "\n"
    ++ "Operators:\n"
    ++ "  ¬ NOT    • AND    + OR    > IMPLIES    ~ EQUIVALENCE\n"
    ++ "  Every operator application is bracketed, e.g. ((¬x1)•(x2+x3))\n"
    ++ "        \n"

end TruthTables.CommandLine
