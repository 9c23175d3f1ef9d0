/-!
# Log

What a run reports about itself, as a value: entries in order, each with a level. Whoever runs the
program chooses from which level on entries are shown.
-/

namespace TimingChart

namespace Log

inductive Level where
  | error
  | warn
  | info
  | debug
deriving DecidableEq, Repr

def Level.name : Level → String
  | error => "ERROR"
  | warn => "WARN"
  | info => "INFO"
  | debug => "DEBUG"

/-- Errors come first, then what is less and less urgent. -/
def Level.rank : Level → Nat
  | error => 1
  | warn => 2
  | info => 3
  | debug => 4

structure Entry where
  level : Level
  message : String
deriving DecidableEq, Repr

/-- How much is shown: nothing, or the entries of a level and of the more urgent ones. -/
inductive Verbosity where
  | off
  | upTo (level : Level)
deriving DecidableEq, Repr

def Verbosity.ofName? (name : String) : Option Verbosity :=
  match name with
  | "off" => some off
  | "error" => some (upTo .error)
  | "warn" => some (upTo .warn)
  | "info" => some (upTo .info)
  | "debug" => some (upTo .debug)
  | _ => none

/-- What is shown if nothing else has been chosen. -/
def Verbosity.default : Verbosity := upTo .info

def Verbosity.shows : Verbosity → Entry → Bool
  | off, _ => false
  | upTo level, entry => entry.level.rank ≤ level.rank

/-- A character of a message as a terminal gets it. Those that it would act on are spelled out. -/
def shown (c : Char) : List Char :=
  if c = '\x07' then ['\\', 'x', '0', '7']
  else if c = '\x08' then ['\\', 'x', '0', '8']
  else if c = '\x0c' then ['\\', 'x', '0', 'c']
  else if c = '\x1b' then ['\\', 'x', '1', 'b']
  else if c = '\x7f' then ['\\', 'x', '7', 'f']
  else if 0x80 ≤ c.toNat && c.toNat ≤ 0x9f then
    ['\\', 'u', '\x7b'] ++ Nat.toDigits 16 c.toNat ++ ['\x7d']
  else [c]

/-- The entries that are shown, each as its level and message on a line of its own. -/
def text (verbosity : Verbosity) (entries : List Entry) : String :=
  String.join ((entries.filter verbosity.shows).map fun entry =>
    entry.level.name ++ " " ++ String.ofList (entry.message.toList.flatMap shown) ++ "\n")

end Log

/-- The entries of a log, in order. -/
abbrev Log := List Log.Entry

end TimingChart
