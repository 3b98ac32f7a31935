import Experiment.Text

/-!
# Commands of the shell

The language of the scripts that runs are executed by: lists, pipes, conditionals, loops, choices by
pattern and simple commands with assignments and redirections.
-/

namespace Experiment.Shell

/-- What is done with the value of a variable before it is used. Where `emptyToo` holds, an empty
value counts like an unset one. -/
inductive Adjustment where
  | asIs
  | length
  | orElse (emptyToo : Bool)
  | orAssign (emptyToo : Bool)
  | instead (emptyToo : Bool)
  | withoutStart (longest : Bool)
  | withoutEnd (longest : Bool)
deriving DecidableEq

/-- A piece of a word. Quoted pieces are neither split nor read as patterns. -/
inductive Fragment where
  | text (value : String) (quoted : Bool)
  | reference (name : String) (adjustment : Adjustment) (word : List Fragment) (quoted : Bool)
  /-- What a script prints, without the line breaks at its end. -/
  | substitution (script : String) (quoted : Bool)
  | arithmetic (expression : String) (quoted : Bool)

abbrev Word := List Fragment

inductive Redirection where
  /-- `source` goes where `target` goes. -/
  | duplicate (source target : Nat)
  | write (source : Nat) (path : Word)
  | append (source : Nat) (path : Word)
  | read (path : Word)
  /-- The text is the input. -/
  | here (content : Word)

structure SimpleCommand where
  line : Nat
  assignments : List (String × Word) := []
  words : List Word := []
  redirections : List Redirection := []

inductive Command where
  | nothing
  | simple (command : SimpleCommand)
  | sequence (first second : Command)
  | andThen (first second : Command)
  | orElse (first second : Command)
  | negation (command : Command)
  | pipe (first second : Command)
  | subshell (body : Command)
  | conditional (test yes no : Command)
  /-- The first of the patterns that fits the subject, or else the next choice. -/
  | choice (subject : Word) (patterns : List Word) (body next : Command)
  | forEach (name : String) (words : List Word) (body : Command)
  /-- Again and again while the test succeeds, or while it fails. -/
  | loop (whileTrue : Bool) (test body : Command)
  | redirected (line : Nat) (command : Command) (redirections : List Redirection)

end Experiment.Shell
