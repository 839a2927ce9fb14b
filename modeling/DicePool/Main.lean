import DicePool.Session

/-!
# The command line

Reads lines from standard input and answers them as they come. The dice are random.
-/

open DicePool

/-- A random generator is a roller. -/
instance : Roller StdGen where
  roll g sides := randNat g 1 sides

/-- The next line of an input, if there is one, and what was read after it. -/
partial def nextLine (input : IO.FS.Stream) (pending : ByteArray) :
    IO (Option ByteArray × ByteArray) := do
  match pending.findIdx? (· == 10) with
  | some i => return (some (pending.extract 0 i), pending.extract (i + 1) pending.size)
  | none =>
    let more ← input.read 4096
    if !more.isEmpty then nextLine input (pending ++ more)
    else return (if pending.isEmpty then none else some pending, ByteArray.empty)

/-- Answers the lines of an input until it ends. -/
partial def answerLines (o : Session.Options) (input output : IO.FS.Stream) (pending : ByteArray)
    (c : Context StdGen) : IO Unit := do
  output.putStr Session.prompt
  output.flush
  let (line?, pending) ← nextLine input pending
  match line? with
  | none => return
  | some line =>
    let (text?, c) := Session.answer o line c
    for text in text? do
      output.putStrLn text
    answerLines o input output pending c

/-- Runs a session with the options of the command line. -/
def main (arguments : List String) : IO UInt32 := do
  match Session.invocation arguments with
  | .version =>
    IO.println Session.version
    return 0
  | .refused =>
    IO.eprintln "error: invalid arguments"
    return 2
  | .run o =>
    let seed ← IO.rand 0 2147483562
    answerLines o (← IO.getStdin) (← IO.getStdout) ByteArray.empty
      (Context.new o.limits (mkStdGen seed))
    return 0
