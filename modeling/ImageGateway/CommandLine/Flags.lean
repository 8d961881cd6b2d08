/-!
# Spelling of flags

A flag with a name of two or more characters may be written with one dash or with two.
`withDoubleDashes` writes all of them with two. Flags of one letter stay as they are, and so do the
name of the program and everything from the argument `--` on.
-/

namespace ImageGateway.CommandLine

/-- Whether an argument is a flag with a name of two or more characters and only one dash. What
follows an equals sign does not belong to the name. -/
def hasSingleDash (arg : String) : Bool :=
  match arg.toList with
  | '-' :: rest => rest.head? != some '-' && 1 < (rest.takeWhile (· ≠ '=')).length
  | _ => false

/-- An argument with its flag spelled with two dashes. -/
def withDoubleDash (arg : String) : String := if hasSingleDash arg then "-" ++ arg else arg

/-- The argument after which no flag is recognised. -/
def terminator : String := "--"

/-- The arguments after the name of the program, with two dashes before each flag. -/
def flagsWithDoubleDashes : List String → List String
  | [] => []
  | arg :: rest =>
    if arg = terminator then arg :: rest else withDoubleDash arg :: flagsWithDoubleDashes rest

/-- A command line with two dashes before each flag that has a name of two or more characters. -/
def withDoubleDashes : List String → List String
  | [] => []
  | program :: args => program :: flagsWithDoubleDashes args

end ImageGateway.CommandLine
