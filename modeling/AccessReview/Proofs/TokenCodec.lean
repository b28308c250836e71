import AccessReview.Proofs.EnvelopeParts
import AccessReview.Proofs.Base64
import AccessReview.Token

/-! # Tokens read back

    A traversal token is written as URL-safe base64 of its JSON envelope, and read by
    trimming, decoding the base64 and reading the envelope against its schema. For a token
    as traversals keep it (`TraversalToken.WellFormed`: keys as reading leaves them, visited
    keys strictly increasing), reading undoes writing
    (`TraversalToken.decode_encode_of_wellFormed`).

    The envelope is read member by member in the order the writer puts them, each member by
    the judgement of its part; the writer's text is first cut into those parts
    (`utf8Bytes_json`, `utf8Bytes_envelopeText`). The visited keys come back in the order
    they were written, which is the order the reader keeps them in. Around the envelope,
    the base64 text has no white space to trim and is never empty, and reads back as the
    envelope's bytes.
-/

namespace AccessReview.Json

/-! ## Entries -/

/-- A record written as an object: its members, between braces. -/
theorem readRecord_reads {α : Type} (expected : String) (bySeq byMap : Reader α) {p : List UInt8}
    {a : α} (h : Reads byMap p a (fun rest => rest.head? = some 0x7D)) :
    Reads (readRecord expected bySeq byMap) (0x7B :: (p ++ [0x7D])) a (fun _ => True) := by
  unfold readRecord
  refine placed_reads ?_
  refine skipBlank_bind 0x7B rfl ?_ (fun rest _ => rfl)
  simp only [BEq.rfl, ↓reduceIte]
  exact Reads.bind (bump_reads 0x7B) (thenClose_reads h endMap_reads (fun rest _ => rfl))
    (fun _ _ => trivial) rfl

/-- The members of an entry, in the order they are written. -/
def entryMembers (e : FrontierEntry) : List UInt8 :=
  Text.utf8Bytes (writeString "kind") ++ 0x3A :: (Text.utf8Bytes (writeString "role") ++
    0x2C :: (Text.utf8Bytes (writeString "role") ++ 0x3A :: (Text.utf8Bytes (writeString e.role.display) ++
    0x2C :: (Text.utf8Bytes (writeString "cursor") ++ 0x3A :: Text.utf8Bytes (cursorText e.cursor)))))

/-- The members of an entry, read in order up to its closing brace. -/
theorem entryFieldsWithin_reads {e : FrontierEntry} (he : e.role.Valid) {fuel : Nat} (hfuel : 3 < fuel) :
    Reads (entryFieldsWithin true none none none fuel) (entryMembers e) e
      (fun rest => rest.head? = some 0x7D) := by
  obtain ⟨f, rfl⟩ : ∃ f, fuel = f + 4 := ⟨fuel - 4, by omega⟩
  unfold entryMembers
  -- the kind
  unfold entryFieldsWithin
  refine Reads.bind (nextKey_first_reads "kind") ?_ (fun _ _ => trivial) rfl
  simp only [String.reduceBEq, ↓reduceIte, Option.isSome_none, Bool.false_eq_true]
  refine Reads.bind objectColon_reads ?_ (fun _ _ => trivial) List.singleton_append
  refine Reads.bind readKind_reads ?_ (fun _ _ => trivial) rfl
  -- the role
  unfold entryFieldsWithin
  refine Reads.bind (nextKey_next_reads "role") ?_ (fun _ _ => trivial) rfl
  simp only [String.reduceBEq, ↓reduceIte, Option.isSome_none, Bool.false_eq_true]
  refine Reads.bind objectColon_reads ?_ (fun _ _ => trivial) List.singleton_append
  refine Reads.bind (readRoleKey_reads he) ?_ (fun _ _ => trivial) rfl
  -- the cursor
  unfold entryFieldsWithin
  refine Reads.bind (nextKey_next_reads "cursor") ?_ (fun _ _ => trivial) rfl
  simp only [String.reduceBEq, ↓reduceIte, Option.isSome_none, Bool.false_eq_true]
  refine Reads.bind objectColon_reads ?_ (fun _ _ => trivial) List.singleton_append
  refine Reads.bind (readCursor_reads e.cursor) ?_ (fun _ _ => trivial) (List.append_nil _)
  -- the closing brace
  unfold entryFieldsWithin
  refine Reads.bind (nextKey_end_reads false) ?_ (fun rest h => ?_) rfl
  · exact Reads.of_pure e
  · exact h

/-- The bytes of a text between braces. -/
theorem utf8Bytes_braced (s : String) :
    Text.utf8Bytes (braced s) = 0x7B :: (Text.utf8Bytes s ++ [0x7D]) := by
  have hopen : Text.utf8Bytes (String.singleton '{') = [0x7B] := by decide
  have hclose : Text.utf8Bytes (String.singleton '}') = [0x7D] := by decide
  rw [braced, Text.utf8Bytes_append, Text.utf8Bytes_append, hopen, hclose]
  rfl

/-- The bytes of an entry: its members between braces. -/
theorem utf8Bytes_json (e : FrontierEntry) :
    Text.utf8Bytes e.json = 0x7B :: (entryMembers e ++ [0x7D]) := by
  have hlit1 : Text.utf8Bytes "\"kind\":\"role\",\"role\":" = Text.utf8Bytes (writeString "kind") ++
      0x3A :: (Text.utf8Bytes (writeString "role") ++ 0x2C :: (Text.utf8Bytes (writeString "role") ++ [0x3A])) := by
    decide
  have hlit2 : Text.utf8Bytes ",\"cursor\":" = 0x2C :: (Text.utf8Bytes (writeString "cursor") ++ [0x3A]) := by
    decide
  have hjson : e.json = braced ("\"kind\":\"role\",\"role\":" ++ writeString e.role.display ++
      ",\"cursor\":" ++ cursorText e.cursor) := by
    obtain ⟨role, cursor⟩ := e
    cases cursor <;> rfl
  simp only [hjson, utf8Bytes_braced, Text.utf8Bytes_append, hlit1, hlit2, entryMembers]
  simp

/-- **Entries.** An entry with a valid role reads back from its JSON. -/
theorem readEntry_reads {e : FrontierEntry} (he : e.role.Valid) :
    Reads readEntry (Text.utf8Bytes e.json) e (fun _ => True) := by
  have hlen : 3 ≤ (entryMembers e).length := by
    simp only [entryMembers, List.length_append, List.length_cons]
    omega
  rw [utf8Bytes_json]
  exact readRecord_reads _ _ _
    (Reads.withFuel hlen fun fuel hf => entryFieldsWithin_reads he hf)

/-! ## The envelope -/

/-- **Visited keys.** Valid keys in strictly increasing order read back as they are. -/
theorem readVisited_reads {ks : List RoleKey} (hv : ∀ k ∈ ks, k.Valid)
    (hs : ks.Pairwise (fun a b => RoleKey.compare a b = .lt)) :
    Reads readVisited
      (0x5B :: (commaSeparated (fun k => Text.utf8Bytes (writeString k.display)) ks ++ [0x5D]))
      ks (fun _ => True) := by
  have hw : ∀ k ∈ ks, (Text.utf8Bytes (writeString k.display)).head? = some 0x22 := by
    intro k _
    rw [utf8Bytes_writeString]
    rfl
  unfold readVisited
  refine Reads.bind (readSeq_reads 0x22 rfl (by decide) hw fun k hk => readRoleKey_reads (hv k hk)) ?_
    (fun _ _ => trivial) (List.append_nil _)
  rw [RoleKey.foldl_insertSorted (by simpa using hs), List.nil_append]
  exact Reads.of_pure ks

/-- The members of an envelope, in the order they are written. -/
def envelopeMembers (frontier : List FrontierEntry) (visited : List RoleKey) : List UInt8 :=
  Text.utf8Bytes (writeString "v") ++ 0x3A :: 0x31 :: 0x2C :: (Text.utf8Bytes (writeString "frontier") ++
    0x3A :: ((0x5B :: (commaSeparated (fun e => Text.utf8Bytes e.json) frontier ++ [0x5D])) ++
    0x2C :: (Text.utf8Bytes (writeString "visited") ++ 0x3A ::
    0x5B :: (commaSeparated (fun k => Text.utf8Bytes (writeString k.display)) visited ++ [0x5D]))))

/-- The members of an envelope, read in order up to its closing brace. -/
theorem envelopeFieldsWithin_reads {frontier : List FrontierEntry} {visited : List RoleKey}
    (hf : ∀ e ∈ frontier, e.role.Valid) (hv : ∀ k ∈ visited, k.Valid)
    (hs : visited.Pairwise (fun a b => RoleKey.compare a b = .lt)) {fuel : Nat} (hfuel : 3 < fuel) :
    Reads (envelopeFieldsWithin true none none none fuel) (envelopeMembers frontier visited)
      (Envelope.mk 1 frontier visited) (fun rest => rest.head? = some 0x7D) := by
  obtain ⟨f, rfl⟩ : ∃ f, fuel = f + 4 := ⟨fuel - 4, by omega⟩
  have hentries : Reads (readSeq readEntry)
      (0x5B :: (commaSeparated (fun e => Text.utf8Bytes e.json) frontier ++ [0x5D])) frontier
      (fun _ => True) := by
    refine readSeq_reads 0x7B rfl (by decide) (fun e _ => ?_) fun e he => readEntry_reads (hf e he)
    rw [utf8Bytes_json]
    rfl
  unfold envelopeMembers
  -- the version
  unfold envelopeFieldsWithin
  refine Reads.bind (nextKey_first_reads "v") ?_ (fun _ _ => trivial) rfl
  simp only [String.reduceBEq, ↓reduceIte, Option.isSome_none, Bool.false_eq_true]
  refine Reads.bind objectColon_reads ?_ (fun _ _ => trivial) List.singleton_append
  refine Reads.bind readVersion_reads ?_ (fun rest _ => ?_) List.singleton_append
  rotate_left
  · rfl
  -- the frontier
  unfold envelopeFieldsWithin
  refine Reads.bind (nextKey_next_reads "frontier") ?_ (fun _ _ => trivial) List.cons_append
  simp only [String.reduceBEq, ↓reduceIte, Option.isSome_none, Bool.false_eq_true]
  refine Reads.bind objectColon_reads ?_ (fun _ _ => trivial) List.singleton_append
  refine Reads.bind hentries ?_ (fun _ _ => trivial) rfl
  -- the visited keys
  unfold envelopeFieldsWithin
  refine Reads.bind (nextKey_next_reads "visited") ?_ (fun _ _ => trivial) List.cons_append
  simp only [String.reduceBEq, ↓reduceIte, Option.isSome_none, Bool.false_eq_true]
  refine Reads.bind objectColon_reads ?_ (fun _ _ => trivial) List.singleton_append
  refine Reads.bind (readVisited_reads hv hs) ?_ (fun _ _ => trivial) (List.append_nil _)
  -- the closing brace
  unfold envelopeFieldsWithin
  refine Reads.bind (nextKey_end_reads false) ?_ (fun rest h => ?_) rfl
  · exact Reads.of_pure (Envelope.mk 1 frontier visited)
  · exact h

/-- The bytes of a token's envelope: its members between braces. -/
theorem utf8Bytes_envelopeText (t : TraversalToken) :
    Text.utf8Bytes t.envelopeText = 0x7B :: (envelopeMembers t.frontier t.visited ++ [0x7D]) := by
  have hv : Text.utf8Bytes "\"v\":" = Text.utf8Bytes (writeString "v") ++ [0x3A] := by decide
  have h1 : Text.utf8Bytes (toString tokenVersion) = [0x31] := by decide
  have hf : Text.utf8Bytes ",\"frontier\":[" =
      0x2C :: (Text.utf8Bytes (writeString "frontier") ++ [0x3A, 0x5B]) := by decide
  have hs : Text.utf8Bytes "],\"visited\":[" =
      0x5D :: 0x2C :: (Text.utf8Bytes (writeString "visited") ++ [0x3A, 0x5B]) := by decide
  have hc : Text.utf8Bytes "]" = [0x5D] := by decide
  simp only [TraversalToken.envelopeText, utf8Bytes_braced, Text.utf8Bytes_append, hv, h1, hf, hs,
    hc, utf8Bytes_intercalate, envelopeMembers]
  simp

/-- The whole envelope of a token, and nothing after it. -/
theorem readEnvelope_reads {t : TraversalToken} (hf : ∀ e ∈ t.frontier, e.role.Valid)
    (hv : ∀ k ∈ t.visited, k.Valid) (hs : t.visited.Pairwise (fun a b => RoleKey.compare a b = .lt)) :
    Reads readEnvelope (Text.utf8Bytes t.envelopeText) (Envelope.mk 1 t.frontier t.visited)
      (fun rest => rest = []) := by
  have hlen : 3 ≤ (envelopeMembers t.frontier t.visited).length := by
    simp only [envelopeMembers, List.length_append, List.length_cons]
    omega
  rw [utf8Bytes_envelopeText]
  unfold readEnvelope
  refine Reads.bind (readRecord_reads _ _ _
    (Reads.withFuel hlen fun fuel h => envelopeFieldsWithin_reads hf hv hs h)) ?_
    (fun _ _ => trivial) (List.append_nil _)
  refine Reads.bind skipBlank_reads_end ?_ (fun rest h => ?_) rfl
  · exact Reads.of_pure _
  · exact h

end AccessReview.Json

namespace AccessReview

open Json

/-! ## Tokens -/

/-- A token as a traversal keeps it: its role keys as reading leaves them, and its visited
keys in strictly increasing order, each once. -/
structure TraversalToken.WellFormed (t : TraversalToken) : Prop where
  /-- Every pending role is a valid key. -/
  pending_valid : ∀ e ∈ t.pending, e.role.Valid
  /-- Every visited role is a valid key. -/
  visited_valid : ∀ k ∈ t.visited, k.Valid
  /-- The visited roles are in strictly increasing order. -/
  visited_sorted : t.visited.Pairwise (fun a b => RoleKey.compare a b = .lt)

/-- The envelope of a well-formed token reads back as its version, frontier and visited keys. -/
theorem Envelope.read_envelopeText {t : TraversalToken} (ht : t.WellFormed) :
    Envelope.read (Text.utf8Bytes t.envelopeText) = .ok ⟨1, t.frontier, t.visited⟩ := by
  have hf : ∀ e ∈ t.frontier, e.role.Valid := fun e he =>
    ht.pending_valid e (List.mem_reverse.mp he)
  have h := readEnvelope_reads hf ht.visited_valid ht.visited_sorted 0 [] rfl
  rw [List.append_nil] at h
  unfold Envelope.read Cursor.start
  rw [h]

/-- A token with a pending role is written as the base64 of its envelope's bytes. -/
theorem TraversalToken.encode_of_pending {t : TraversalToken} (hp : t.pending ≠ []) :
    t.encode = Base64.encode (Text.utf8Bytes t.envelopeText) := by
  have hdone : t.isDone = false := by simpa [TraversalToken.isDone] using hp
  rw [TraversalToken.encode, hdone, Text.toUTF8_toList]
  rfl

/-- A token with a pending role is never written as the empty string. -/
theorem TraversalToken.encode_ne_empty {t : TraversalToken} (hp : t.pending ≠ []) :
    t.encode ≠ "" := by
  have hne : Text.utf8Bytes t.envelopeText ≠ [] := by rw [utf8Bytes_envelopeText]; simp
  rw [TraversalToken.encode_of_pending hp]
  exact Base64.encode_ne_empty hne

/-- A token with no pending role is written as the empty string. -/
theorem TraversalToken.encode_of_done {t : TraversalToken} (hp : t.pending = []) :
    t.encode = "" := by
  have hdone : t.isDone = true := by simp [TraversalToken.isDone, hp]
  simp [TraversalToken.encode, hdone]

/-- The written form is empty exactly when no role is pending. -/
theorem TraversalToken.encode_isEmpty (t : TraversalToken) : t.encode.isEmpty = t.isDone := by
  by_cases hp : t.pending = []
  · simp [TraversalToken.encode_of_done hp, TraversalToken.isDone, hp]
  · have hdone : t.isDone = false := by simpa [TraversalToken.isDone] using hp
    simpa [hdone] using TraversalToken.encode_ne_empty hp

/-- A well-formed token with a pending role reads back from its written form. -/
theorem TraversalToken.decode_encode_of_pending {t : TraversalToken} (ht : t.WellFormed)
    (hp : t.pending ≠ []) : TraversalToken.decode t.encode = .ok t := by
  -- the written text has no white space to trim, and is not empty
  have htrim : String.ofList (Text.trimList (Base64.encode (Text.utf8Bytes t.envelopeText)).toList) =
      Base64.encode (Text.utf8Bytes t.envelopeText) := by
    rw [Text.trimList_of_forall (Base64.encode_no_whiteSpace _), String.ofList_toList]
  have hempty : (Base64.encode (Text.utf8Bytes t.envelopeText)).isEmpty = false := by
    simpa [TraversalToken.encode_of_pending hp] using TraversalToken.encode_ne_empty hp
  have hfront : t.pending.reverse.isEmpty = false := by
    simpa using hp
  rw [TraversalToken.encode_of_pending hp]
  unfold TraversalToken.decode
  dsimp only
  rw [htrim, hempty, Base64.decode_encode]
  simp only [Bool.false_eq_true, ↓reduceIte]
  rw [Envelope.read_envelopeText ht]
  simp only [tokenVersion, bne_self_eq_false, Bool.false_eq_true, ↓reduceIte,
    TraversalToken.frontier, hfront, List.reverse_reverse]

/-- The empty string reads as the fresh token. -/
theorem TraversalToken.decode_empty : TraversalToken.decode "" = .ok .fresh := rfl

/-- **Token round trip.** A token with a pending role is written as a non-empty string that
reads back as the token; a token with none is written as the empty string, which reads as the
fresh token. -/
theorem TraversalToken.decode_encode_of_wellFormed (t : TraversalToken) (ht : t.WellFormed) :
    (t.pending ≠ [] → t.encode ≠ "" ∧ TraversalToken.decode t.encode = .ok t) ∧
    (t.pending = [] → t.encode = "" ∧ TraversalToken.decode "" = .ok .fresh) :=
  ⟨fun hp => ⟨TraversalToken.encode_ne_empty hp, TraversalToken.decode_encode_of_pending ht hp⟩,
    fun hp => ⟨TraversalToken.encode_of_done hp, TraversalToken.decode_empty⟩⟩

/-- A token holding a database role whose name has a colon and a quote, with a negative id
and a cursor, above a server role, with visited keys of both scopes. -/
theorem TraversalToken.decode_encode_colon_name :
    TraversalToken.WellFormed
        ⟨[⟨.database ⟨"a:\"b"⟩ ⟨-7⟩, some "p\\2"⟩, ⟨.server ⟨3⟩, none⟩],
          [.server ⟨1⟩, .database ⟨"a:\"b"⟩ ⟨2⟩]⟩ ∧
      TraversalToken.decode (TraversalToken.encode
        ⟨[⟨.database ⟨"a:\"b"⟩ ⟨-7⟩, some "p\\2"⟩, ⟨.server ⟨3⟩, none⟩],
          [.server ⟨1⟩, .database ⟨"a:\"b"⟩ ⟨2⟩]⟩) =
        .ok ⟨[⟨.database ⟨"a:\"b"⟩ ⟨-7⟩, some "p\\2"⟩, ⟨.server ⟨3⟩, none⟩],
          [.server ⟨1⟩, .database ⟨"a:\"b"⟩ ⟨2⟩]⟩ := by
  have hname : DatabaseName.Checked ⟨"a:\"b"⟩ := ⟨"a:\"b", by decide⟩
  have ht : TraversalToken.WellFormed
      ⟨[⟨.database ⟨"a:\"b"⟩ ⟨-7⟩, some "p\\2"⟩, ⟨.server ⟨3⟩, none⟩],
        [.server ⟨1⟩, .database ⟨"a:\"b"⟩ ⟨2⟩]⟩ := by
    refine ⟨?_, ?_, by decide⟩
    · intro e he
      simp only [List.mem_cons, List.not_mem_nil, or_false] at he
      rcases he with rfl | rfl
      · exact ⟨hname, by decide, by decide⟩
      · exact ⟨by decide, by decide⟩
    · intro k hk
      simp only [List.mem_cons, List.not_mem_nil, or_false] at hk
      rcases hk with rfl | rfl
      · exact ⟨by decide, by decide⟩
      · exact ⟨hname, by decide, by decide⟩
  exact ⟨ht, ((TraversalToken.decode_encode_of_wellFormed _ ht).1 (by simp)).2⟩

end AccessReview
