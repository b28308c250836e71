import AccessReview.Json.Fault

/-!
# Reading JSON text byte by byte

A reading keeps a `Cursor`: the number of bytes read so far and the bytes ahead. A
`Reader` is a computation over the cursor that may fail with a `ReadError`; the cursor
keeps whatever it read before the failure, because a record that fails inside still
checks its own closing bracket before the failure is placed.

A fault is mostly placed at one of two offsets: at the cursor (`fail`), or one byte ahead
of it, at the byte that was looked at and not taken (`failAhead`), which at the end of the
text is the end itself; a fault found in bytes already taken is placed behind the cursor
(`failBehind`). A fault raised by a schema carries no offset at first; `place` gives it
the cursor's offset when it leaves the reader of the nearest enclosing value.
-/

namespace AccessReview.Json

/-- Where a reading stands. -/
structure Cursor where
  /-- Bytes read so far. -/
  offset : Nat
  /-- Bytes still ahead. -/
  rest : List UInt8
  deriving DecidableEq, Repr

/-- A cursor at the start of a text. -/
def Cursor.start (text : List UInt8) : Cursor := ⟨0, text⟩

/-- The cursor after `n` more bytes. -/
def Cursor.advance (c : Cursor) (n : Nat) : Cursor :=
  ⟨c.offset + min n c.rest.length, c.rest.drop n⟩

/-- A computation reading JSON text. -/
abbrev Reader := ExceptT ReadError (StateM Cursor)

/-- The byte ahead, if any, left in place. -/
def peek : Reader (Option UInt8) := do
  return (← get).rest.head?

/-- Takes the byte ahead. -/
def bump : Reader Unit :=
  modify fun c => c.advance 1

/-- Takes `n` bytes. -/
def advance (n : Nat) : Reader Unit :=
  modify fun c => c.advance n

/-- JSON white space: space, line feed, tab and carriage return. -/
def isBlank (b : UInt8) : Bool := b == 0x20 || b == 0x0A || b == 0x09 || b == 0x0D

/-- Skips white space and returns the byte after it, left in place. -/
def skipBlank : Reader (Option UInt8) := do
  let c ← get
  let n := (c.rest.takeWhile isBlank).length
  set (c.advance n)
  return (c.rest.drop n).head?

/-- Fails with a grammar break at the cursor. -/
def fail (s : Grammar) : Reader α := do
  throw ⟨.grammar s, some (← get).offset⟩

/-- Fails with a grammar break at the byte ahead, or at the end of the text. -/
def failAhead (s : Grammar) : Reader α := do
  let c ← get
  throw ⟨.grammar s, some (c.offset + min 1 c.rest.length)⟩

/-- Fails with a grammar break `n` bytes behind the cursor. -/
def failBehind (n : Nat) (s : Grammar) : Reader α := do
  throw ⟨.grammar s, some ((← get).offset - n)⟩

/-- Fails with a fault not placed yet. -/
def refuse (f : Fault) : Reader α :=
  throw ⟨f, none⟩

/-- Places an error at the cursor unless it is placed already. -/
def place (e : ReadError) : Reader ReadError := do
  match e.offset with
  | some _ => return e
  | none => return { e with offset := some (← get).offset }

/-- Runs a reader and places the error it fails with at the cursor where it failed. -/
def placed (r : Reader α) : Reader α :=
  tryCatch r fun e => do throw (← place e)

/-- Runs a reader and returns its outcome, keeping the cursor it leaves either way. -/
def attempt (r : Reader α) : Reader (Except ReadError α) :=
  ExceptT.mk do
    let outcome ← r.run
    return .ok outcome

/-- Runs `body` and then `close` whatever the outcome of `body`; the first failure wins. -/
def thenClose (body : Reader α) (close : Reader Unit) : Reader α := do
  let outcome ← attempt body
  let closed ← attempt close
  match outcome, closed with
  | .error e, _ => throw e
  | .ok _, .error e => throw e
  | .ok a, .ok () => return a

/-- Reads the bytes of a literal such as the `ull` of `null`: the end of the text or a
different byte fails there, after taking the byte. -/
def expectBytes : List UInt8 → Reader Unit
  | [] => return ()
  | b :: bs => do
    match ← peek with
    | none => fail .eofInValue
    | some x =>
      bump
      if x == b then expectBytes bs else fail .expectedIdent

/-- Whether a byte is an ASCII decimal digit. -/
def isDigit (b : UInt8) : Bool := 0x30 ≤ b && b ≤ 0x39

end AccessReview.Json
