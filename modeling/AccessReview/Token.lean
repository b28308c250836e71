import AccessReview.Token.Envelope
import AccessReview.Json.Written
import AccessReview.Codec.Base64

/-!
# Traversal tokens

A traversal token is the whole state of a role traversal: a stack of roles still being
expanded, each with the cursor reached in its member listing, and the set of roles already
expanded. It travels as an opaque string: URL-safe base64, without padding, of the compact
JSON envelope `{"v":1,"frontier":[...],"visited":[...]}`, whose frontier lists the stack
bottom first. A token with no pending role is written as the empty string, and the empty
string (after trimming) reads as the fresh token.

Reading a token refuses, in this order: text that is not base64, an envelope that does not
read (`AccessReview.Envelope.read`), a version other than 1, and an empty frontier.
-/

namespace AccessReview

/-- The envelope version written and accepted. -/
def tokenVersion : Nat := 1

/-- The state of a role traversal. -/
structure TraversalToken where
  /-- Roles still being expanded, top of the stack first. -/
  pending : List FrontierEntry
  /-- Roles already expanded, in role-key order, each once. -/
  visited : List RoleKey
  deriving DecidableEq, Repr

/-- The token of a traversal not started yet. -/
def TraversalToken.fresh : TraversalToken := ⟨[], []⟩

/-- Whether no role is pending. -/
def TraversalToken.isDone (t : TraversalToken) : Bool := t.pending.isEmpty

/-- The pending entries, bottom of the stack first. -/
def TraversalToken.frontier (t : TraversalToken) : List FrontierEntry := t.pending.reverse

/-- Whether a role has been expanded. -/
def TraversalToken.isVisited (t : TraversalToken) (k : RoleKey) : Bool := t.visited.contains k

/-- Whether a role is pending. -/
def TraversalToken.isQueued (t : TraversalToken) (k : RoleKey) : Bool :=
  t.pending.any (·.role == k)

/-- Pushes an entry on top of the stack. -/
def TraversalToken.push (t : TraversalToken) (e : FrontierEntry) : TraversalToken :=
  { t with pending := e :: t.pending }

/-- Marks a role as expanded. -/
def TraversalToken.markVisited (t : TraversalToken) (k : RoleKey) : TraversalToken :=
  { t with visited := k.insertSorted t.visited }

/-- The number of distinct roles the token tracks: the visited ones, and the pending ones not
visited. -/
def TraversalToken.trackedRoles (t : TraversalToken) : Nat :=
  t.visited.length +
    ((t.pending.map (·.role)).eraseDups.filter (fun k => !t.visited.contains k)).length

/-- A text between braces. -/
def braced (s : String) : String := String.singleton '{' ++ s ++ String.singleton '}'

/-- The JSON of a frontier entry. -/
def FrontierEntry.json (e : FrontierEntry) : String :=
  braced ("\"kind\":\"role\",\"role\":" ++ Json.writeString e.role.display ++ ",\"cursor\":" ++
    (match e.cursor with
     | none => "null"
     | some c => Json.writeString c))

/-- The compact JSON envelope of a token. -/
def TraversalToken.envelopeText (t : TraversalToken) : String :=
  braced ("\"v\":" ++ toString tokenVersion ++ ",\"frontier\":[" ++
    ",".intercalate (t.frontier.map FrontierEntry.json) ++ "],\"visited\":[" ++
    ",".intercalate (t.visited.map fun k => Json.writeString k.display) ++ "]")

/-- The string form of a token: empty when no role is pending. -/
def TraversalToken.encode (t : TraversalToken) : String :=
  if t.isDone then "" else Base64.encode t.envelopeText.toUTF8.toList

/-- Reads a token from its string form. -/
def TraversalToken.decode (token : String) : Except Error TraversalToken :=
  let trimmed := String.ofList (Text.trimList token.toList)
  if trimmed.isEmpty then .ok .fresh
  else
    match Base64.decode trimmed with
    | none => .error (.token .notBase64)
    | some bytes =>
      match Envelope.read bytes with
      | .error e => .error (.token (.malformed (e.render bytes)))
      | .ok env =>
        if env.version != tokenVersion then .error (.token (.unsupportedVersion env.version))
        else if env.frontier.isEmpty then .error (.token .emptyFrontier)
        else .ok ⟨env.frontier.reverse, env.visited⟩

end AccessReview
