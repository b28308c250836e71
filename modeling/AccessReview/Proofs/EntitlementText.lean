import Mathlib
import AccessReview.Grant.Json
import AccessReview.Proofs.TokenCodec
import AccessReview.Proofs.StatementText

/-! # Entitlements written and read back

An entitlement is written `<type>:<resource>:<slug>` and read by cutting the text at its first
colon, for the type, and at the last colon of the rest, for the slug. Reading therefore takes
back exactly the entitlements whose resource is non-empty and whose slug is non-empty and holds
no colon (`Entitlement.Readable`), while the resource may hold colons, as the resources of
database roles (`<database>:<id>`) do. Every text that reads at all is the written form of what
it reads as, so writing and reading are inverse bijections between readable entitlements and
the texts that read (`Entitlement.parse_eq_ok_iff`).

A grant is written as JSON with its entitlement as the string of the written form; for a
readable entitlement, reading the grant's JSON gives the grant back, whatever its principal's
resource string holds (`Grant.read_json`). The members of the JSON are read one after another
by the judgement `Json.Reads` of the token envelope.
-/

namespace AccessReview

/-! ## Cutting at a separator -/

/-- A cut at the first separator leaves no separator before it. -/
theorem Text.splitFirst_eq_some {sep : Char} {cs before after : List Char}
    (h : Text.splitFirst sep cs = some (before, after)) :
    sep ∉ before ∧ cs = before ++ sep :: after := by
  unfold Text.splitFirst at h
  rw [List.span_eq_takeWhile_dropWhile] at h
  generalize hd : cs.dropWhile (· != sep) = dropped at h
  cases dropped with
  | nil => simp at h
  | cons x rest =>
    simp only [Option.some.injEq, Prod.mk.injEq] at h
    obtain ⟨rfl, rfl⟩ := h
    -- the dropping stops at the separator
    have hx : x = sep := by
      have hstop := @List.head_dropWhile_not _ (· != sep) cs (by simp [hd])
      simpa [hd] using hstop
    refine ⟨fun hmem => by simpa using List.mem_takeWhile_imp hmem, ?_⟩
    calc cs = cs.takeWhile (· != sep) ++ cs.dropWhile (· != sep) :=
          List.takeWhile_append_dropWhile.symm
      _ = cs.takeWhile (· != sep) ++ sep :: rest := by rw [hd, hx]

/-- Cutting at the last separator is cutting the reversed text at its first one. -/
theorem Text.splitLast_eq_map_splitFirst (sep : Char) (cs : List Char) :
    Text.splitLast sep cs =
      (Text.splitFirst sep cs.reverse).map fun p => (p.2.reverse, p.1.reverse) := by
  unfold Text.splitLast Text.splitFirst
  split <;> simp_all

/-- A cut at the last separator leaves no separator after it. -/
theorem Text.splitLast_eq_some {sep : Char} {cs before after : List Char}
    (h : Text.splitLast sep cs = some (before, after)) :
    sep ∉ after ∧ cs = before ++ sep :: after := by
  rw [Text.splitLast_eq_map_splitFirst, Option.map_eq_some_iff] at h
  obtain ⟨⟨a, b⟩, hcut, hp⟩ := h
  simp only [Prod.mk.injEq] at hp
  obtain ⟨rfl, rfl⟩ := hp
  obtain ⟨hsep, hrev⟩ := Text.splitFirst_eq_some hcut
  refine ⟨by simpa using hsep, ?_⟩
  rw [← List.reverse_reverse cs, hrev]
  simp

/-! ## Resource types -/

/-- The name of a resource type reads as that type. -/
theorem ResourceType.parse_name (t : ResourceType) : ResourceType.parse t.name = .ok t := by
  cases t <;> rfl

/-- A name that reads as a resource type is that type's name. -/
theorem ResourceType.name_of_parse {s : String} {t : ResourceType}
    (h : ResourceType.parse s = .ok t) : t.name = s := by
  unfold ResourceType.parse at h
  split at h
  · rename_i t' hfind
    cases h
    have hname := List.find?_some hfind
    exact beq_iff_eq.mp hname
  · cases h

/-- No resource type's name holds a colon. -/
theorem ResourceType.colon_not_mem_name (t : ResourceType) : ':' ∉ t.name.toList := by
  cases t <;> decide

/-! ## Entitlement texts -/

/-- An entitlement that reading can give: its resource is non-empty, and its slug is non-empty
and holds no colon. -/
def Entitlement.Readable (e : Entitlement) : Prop :=
  e.resource.resource ≠ "" ∧ e.slug ≠ "" ∧ ':' ∉ e.slug.toList

instance (e : Entitlement) : Decidable e.Readable :=
  inferInstanceAs (Decidable (_ ∧ _ ∧ _))

/-- The characters of an entitlement's written form. -/
theorem Entitlement.display_toList (e : Entitlement) :
    e.display.toList =
      e.resource.type.name.toList ++ ':' :: (e.resource.resource.toList ++ ':' :: e.slug.toList) := by
  simp [Entitlement.display, ResourceId.display]

/-- A readable entitlement reads back from its written form. -/
theorem Entitlement.parse_display {e : Entitlement} (h : e.Readable) :
    Entitlement.parse e.display = .ok e := by
  obtain ⟨hres, hslug, hcolon⟩ := h
  have hfilled : (e.resource.resource.toList.isEmpty || e.slug.toList.isEmpty) = false := by
    simpa [List.isEmpty_iff, String.toList_eq_nil_iff] using And.intro hres hslug
  unfold Entitlement.parse
  rw [Entitlement.display_toList, Text.splitFirst_append (ResourceType.colon_not_mem_name _)]
  simp only
  rw [Text.splitLast_append hcolon]
  simp only [hfilled, Bool.false_eq_true, ↓reduceIte, String.ofList_toList,
    ResourceType.parse_name]
  rfl

/-- A text that reads as an entitlement is the written form of a readable one. -/
theorem Entitlement.display_of_parse {s : String} {e : Entitlement}
    (h : Entitlement.parse s = .ok e) : e.Readable ∧ e.display = s := by
  unfold Entitlement.parse at h
  split at h
  · cases h
  · rename_i type rest hfirst
    split at h
    · cases h
    · rename_i resource slug hlast
      split at h
      · cases h
      · rename_i hfilled
        obtain ⟨t, ht, he⟩ := except_bind_eq_ok.mp h
        cases he
        obtain ⟨-, hs⟩ := Text.splitFirst_eq_some hfirst
        obtain ⟨hcolon, hrest⟩ := Text.splitLast_eq_some hlast
        simp only [Bool.or_eq_true, List.isEmpty_iff, not_or] at hfilled
        refine ⟨⟨by simpa using hfilled.1, by simpa using hfilled.2, by simpa using hcolon⟩, ?_⟩
        -- the type's name is the text before the first colon
        have hname : t.name.toList = type := by
          rw [ResourceType.name_of_parse ht, String.toList_ofList]
        rw [← String.toList_inj, Entitlement.display_toList, hs, hrest]
        simp [hname]

/-- Reading an entitlement gives `e` exactly from the written form of `e`, when `e` is
readable: reading and writing are inverse bijections between readable entitlements and the
texts that read. -/
theorem Entitlement.parse_eq_ok_iff (s : String) (e : Entitlement) :
    Entitlement.parse s = .ok e ↔ e.Readable ∧ e.display = s := by
  constructor
  · exact Entitlement.display_of_parse
  · rintro ⟨h, rfl⟩
    exact Entitlement.parse_display h

namespace Json

/-! ## Grants read back from their JSON -/

/-- A resource type, written as the string of its name, reads back. -/
theorem readResourceType_reads (t : ResourceType) :
    Reads readResourceType (Text.utf8Bytes (writeString t.name)) t (fun _ => True) :=
  readUnitVariant_reads (readStringWith_reads _ (by cases t <;> rfl))

/-- A readable entitlement, written as the string of its written form, reads back. -/
theorem readEntitlement_reads {e : Entitlement} (he : e.Readable) :
    Reads readEntitlement (Text.utf8Bytes (writeString e.display)) e (fun _ => True) := by
  unfold readEntitlement
  refine Reads.bind (readText_reads e.display) ?_ (fun _ _ => trivial) (List.append_nil _)
  simp only [Entitlement.parse_display he]
  exact Reads.of_pure e

/-- The members of a resource, in the order they are written. -/
def resourceMembers (r : ResourceId) : List UInt8 :=
  Text.utf8Bytes (writeString "resource_type") ++ 0x3A :: (Text.utf8Bytes (writeString r.type.name) ++
    0x2C :: (Text.utf8Bytes (writeString "resource") ++ 0x3A ::
      Text.utf8Bytes (writeString r.resource)))

/-- The members of a resource, read in order up to its closing brace. -/
theorem resourceFieldsWithin_reads (r : ResourceId) {fuel : Nat} (hfuel : 2 < fuel) :
    Reads (resourceFieldsWithin true none none fuel) (resourceMembers r) r
      (fun rest => rest.head? = some 0x7D) := by
  obtain ⟨f, rfl⟩ : ∃ f, fuel = f + 3 := ⟨fuel - 3, by omega⟩
  unfold resourceMembers
  -- the type
  unfold resourceFieldsWithin
  refine Reads.bind (nextKey_first_reads "resource_type") ?_ (fun _ _ => trivial) rfl
  simp only [String.reduceBEq, ↓reduceIte, Option.isSome_none, Bool.false_eq_true]
  refine Reads.bind objectColon_reads ?_ (fun _ _ => trivial) List.singleton_append
  refine Reads.bind (readResourceType_reads r.type) ?_ (fun _ _ => trivial) rfl
  -- the resource string
  unfold resourceFieldsWithin
  refine Reads.bind (nextKey_next_reads "resource") ?_ (fun _ _ => trivial) rfl
  simp only [String.reduceBEq, ↓reduceIte, Option.isSome_none, Bool.false_eq_true]
  refine Reads.bind objectColon_reads ?_ (fun _ _ => trivial) List.singleton_append
  refine Reads.bind (readText_reads r.resource) ?_ (fun _ _ => trivial) (List.append_nil _)
  -- the closing brace
  unfold resourceFieldsWithin
  refine Reads.bind (nextKey_end_reads false) ?_ (fun rest h => ?_) rfl
  · exact Reads.of_pure r
  · exact h

/-- The bytes of a resource's JSON: its members between braces. -/
theorem utf8Bytes_resourceJson (r : ResourceId) :
    Text.utf8Bytes r.json = 0x7B :: (resourceMembers r ++ [0x7D]) := by
  have htype : Text.utf8Bytes "\"resource_type\":" =
      Text.utf8Bytes (writeString "resource_type") ++ [0x3A] := by decide
  have hresource : Text.utf8Bytes ",\"resource\":" =
      0x2C :: (Text.utf8Bytes (writeString "resource") ++ [0x3A]) := by decide
  simp only [ResourceId.json, utf8Bytes_braced, Text.utf8Bytes_append, htype, hresource,
    resourceMembers]
  simp

/-- A resource reads back from its JSON. -/
theorem readResourceId_reads (r : ResourceId) :
    Reads readResourceId (Text.utf8Bytes r.json) r (fun _ => True) := by
  have hlen : 2 ≤ (resourceMembers r).length := by
    simp only [resourceMembers, List.length_append, List.length_cons]
    omega
  rw [utf8Bytes_resourceJson]
  exact readRecord_reads _ _ _
    (Reads.withFuel hlen fun fuel hf => resourceFieldsWithin_reads r hf)

/-- The members of a grant, in the order they are written. -/
def grantMembers (g : Grant) : List UInt8 :=
  Text.utf8Bytes (writeString "entitlement") ++ 0x3A ::
    (Text.utf8Bytes (writeString g.entitlement.display) ++
      0x2C :: (Text.utf8Bytes (writeString "principal") ++ 0x3A :: Text.utf8Bytes g.principal.json))

/-- The members of a grant with a readable entitlement, read in order up to its closing
brace. -/
theorem grantFieldsWithin_reads {g : Grant} (hg : g.entitlement.Readable) {fuel : Nat}
    (hfuel : 2 < fuel) :
    Reads (grantFieldsWithin true none none fuel) (grantMembers g) g
      (fun rest => rest.head? = some 0x7D) := by
  obtain ⟨f, rfl⟩ : ∃ f, fuel = f + 3 := ⟨fuel - 3, by omega⟩
  unfold grantMembers
  -- the entitlement
  unfold grantFieldsWithin
  refine Reads.bind (nextKey_first_reads "entitlement") ?_ (fun _ _ => trivial) rfl
  simp only [String.reduceBEq, ↓reduceIte, Option.isSome_none, Bool.false_eq_true]
  refine Reads.bind objectColon_reads ?_ (fun _ _ => trivial) List.singleton_append
  refine Reads.bind (readEntitlement_reads hg) ?_ (fun _ _ => trivial) rfl
  -- the principal
  unfold grantFieldsWithin
  refine Reads.bind (nextKey_next_reads "principal") ?_ (fun _ _ => trivial) rfl
  simp only [String.reduceBEq, ↓reduceIte, Option.isSome_none, Bool.false_eq_true]
  refine Reads.bind objectColon_reads ?_ (fun _ _ => trivial) List.singleton_append
  refine Reads.bind (readResourceId_reads g.principal) ?_ (fun _ _ => trivial) (List.append_nil _)
  -- the closing brace
  unfold grantFieldsWithin
  refine Reads.bind (nextKey_end_reads false) ?_ (fun rest h => ?_) rfl
  · exact Reads.of_pure g
  · exact h

/-- The bytes of a grant's JSON: its members between braces. -/
theorem utf8Bytes_grantJson (g : Grant) :
    Text.utf8Bytes g.json = 0x7B :: (grantMembers g ++ [0x7D]) := by
  have hentitlement : Text.utf8Bytes "\"entitlement\":" =
      Text.utf8Bytes (writeString "entitlement") ++ [0x3A] := by decide
  have hprincipal : Text.utf8Bytes ",\"principal\":" =
      0x2C :: (Text.utf8Bytes (writeString "principal") ++ [0x3A]) := by decide
  simp only [Grant.json, utf8Bytes_braced, Text.utf8Bytes_append, hentitlement, hprincipal,
    grantMembers]
  simp

/-- The whole JSON of a grant with a readable entitlement, and nothing after it. -/
theorem readGrantJson_reads {g : Grant} (hg : g.entitlement.Readable) :
    Reads readGrantJson (Text.utf8Bytes g.json) g (fun rest => rest = []) := by
  have hlen : 2 ≤ (grantMembers g).length := by
    simp only [grantMembers, List.length_append, List.length_cons]
    omega
  rw [utf8Bytes_grantJson]
  unfold readGrantJson
  refine Reads.bind (readRecord_reads _ _ _
    (Reads.withFuel hlen fun fuel hf => grantFieldsWithin_reads hg hf)) ?_
    (fun _ _ => trivial) (List.append_nil _)
  refine Reads.bind skipBlank_reads_end ?_ (fun rest h => ?_) rfl
  · exact Reads.of_pure g
  · exact h

end Json

/-- A grant whose entitlement is readable reads back from its JSON. -/
theorem Grant.read_json {g : Grant} (hg : g.entitlement.Readable) :
    Grant.read (Text.utf8Bytes g.json) = .ok g := by
  have h := Json.readGrantJson_reads hg 0 [] rfl
  rw [List.append_nil] at h
  unfold Grant.read Json.Cursor.start
  rw [h]

/-- **Entitlement texts.** Reading an entitlement gives `e` exactly from the written form of
`e`, for `e` readable (a non-empty resource, which may hold colons, and a non-empty slug
without one), so writing and reading are inverse bijections between readable entitlements and
the texts that read; and every grant of a readable entitlement, whatever its principal, reads
back from its JSON. -/
theorem Entitlement.written_forms_read_back :
    (∀ (s : String) (e : Entitlement), Entitlement.parse s = .ok e ↔ e.Readable ∧ e.display = s) ∧
      ∀ g : Grant, g.entitlement.Readable → Grant.read (Text.utf8Bytes g.json) = .ok g :=
  ⟨Entitlement.parse_eq_ok_iff, fun _ hg => Grant.read_json hg⟩

/-- The membership of a role of the database `sales:eu`, whose resource holds two colons, held
by a user whose resource string holds a quote. -/
theorem Entitlement.written_forms_read_back_database_role :
    let g : Grant := ⟨⟨⟨.databaseRole, "sales:eu:7"⟩, "member"⟩, ⟨.user, "2\"59"⟩⟩
    g.entitlement.Readable ∧ Entitlement.parse g.entitlement.display = .ok g.entitlement ∧
      Grant.read (Text.utf8Bytes g.json) = .ok g := by
  intro g
  have hg : g.entitlement.Readable := by decide
  exact ⟨hg, (Entitlement.written_forms_read_back.1 _ _).mpr ⟨hg, rfl⟩,
    Entitlement.written_forms_read_back.2 g hg⟩

end AccessReview
