import Mathlib
import AccessReview.Permission
import AccessReview.Proofs.StatementChecks

/-! # Permission code lists

The catalog aggregates the codes a holder has in one state into a single text, the codes joined
by commas; decoding splits that text at every comma, trims each part and drops the parts left
empty (`splitCodes`). Splitting a joined text splits each joined part on its own
(`splitCodes_intercalate`), so decoding gives back the codes that were joined, in order, as long
as each is a code the catalog can write (`BareCode`: non-empty, with no comma and no white space
at either end). White space around the separators and blank parts anywhere change nothing
(`CodePadding`, `splitCodes_recovers_codes`).
-/

namespace AccessReview

/-! ## White space around a code -/

/-- A text of white space only; the empty text is one. -/
def Text.Blank (s : String) : Prop := ∀ c ∈ s.toList, Text.isWhiteSpace c = true

/-- A code as the catalog writes it: non-empty, with no comma, and starting and ending with
something other than white space. -/
def BareCode (x : String) : Prop :=
  x.toList ≠ [] ∧ ',' ∉ x.toList ∧ (∀ c ∈ x.toList.head?, Text.isWhiteSpace c = false) ∧
    ∀ c ∈ x.toList.getLast?, Text.isWhiteSpace c = false

namespace Text

/-- Dropping the white space in front of a run of white space and a part that starts with
something else leaves that part. -/
theorem dropWhile_blank_append {w cs : List Char} (hw : ∀ c ∈ w, isWhiteSpace c = true)
    (hcs : ∀ c ∈ cs.head?, isWhiteSpace c = false) :
    (w ++ cs).dropWhile isWhiteSpace = cs := by
  rw [List.dropWhile_append, List.dropWhile_eq_nil_iff.mpr hw]
  cases cs with
  | nil => rfl
  | cons c cs => simp [hcs c rfl]

/-- Trimming white space alone leaves nothing. -/
theorem trimList_blank {w : List Char} (hw : ∀ c ∈ w, isWhiteSpace c = true) : trimList w = [] := by
  unfold trimList
  rw [List.dropWhile_eq_nil_iff.mpr hw]
  rfl

/-- Trimming a part padded with white space on both sides, which itself starts and ends with
something else, gives the part. -/
theorem trimList_padded {w₁ cs w₂ : List Char} (h₁ : ∀ c ∈ w₁, isWhiteSpace c = true)
    (h₂ : ∀ c ∈ w₂, isWhiteSpace c = true) (hne : cs ≠ [])
    (hhead : ∀ c ∈ cs.head?, isWhiteSpace c = false)
    (hlast : ∀ c ∈ cs.getLast?, isWhiteSpace c = false) :
    trimList (w₁ ++ cs ++ w₂) = cs := by
  have hfront : (w₁ ++ cs ++ w₂).dropWhile isWhiteSpace = cs ++ w₂ := by
    rw [List.append_assoc]
    exact dropWhile_blank_append h₁ (by rwa [List.head?_append_of_ne_nil _ hne])
  -- the back is trimmed as the front of the reversed text
  have hback : (cs ++ w₂).reverse.dropWhile isWhiteSpace = cs.reverse := by
    rw [List.reverse_append]
    exact dropWhile_blank_append (by simpa using h₂) (by rwa [List.head?_reverse])
  unfold trimList
  rw [hfront, hback, List.reverse_reverse]

end Text

/-- A blank text has no comma. -/
theorem Text.Blank.comma_not_mem {w : String} (hw : Text.Blank w) : ',' ∉ w.toList :=
  fun hc => absurd (hw ',' hc) (by decide)

/-! ## Splitting joined parts -/

/-- Splitting two parts joined by a comma splits each part. -/
theorem splitCodes_append_comma (s t : String) :
    splitCodes (s ++ "," ++ t) = splitCodes s ++ splitCodes t := by
  have hchars : (s ++ "," ++ t).toList = s.toList ++ ',' :: t.toList := by simp
  unfold splitCodes
  rw [hchars, Text.splitAll_eq_splitOn, List.splitOn_append_cons_self, List.map_append,
    List.filterMap_append, ← Text.splitAll_eq_splitOn, ← Text.splitAll_eq_splitOn]

/-- Splitting parts joined by commas splits each part, in order. -/
theorem splitCodes_intercalate (segs : List String) :
    splitCodes (",".intercalate segs) = segs.flatMap splitCodes := by
  induction segs with
  | nil => rfl
  | cons s rest ih =>
    cases rest with
    | nil => simp
    | cons t rest =>
      rw [String.intercalate_cons_cons, splitCodes_append_comma, ih]
      exact List.flatMap_cons.symm

/-- A part with no comma splits into itself trimmed, or into nothing when that is empty. -/
theorem splitCodes_of_comma_not_mem {s : String} (h : ',' ∉ s.toList) :
    splitCodes s =
      if Text.trimList s.toList = [] then [] else [String.ofList (Text.trimList s.toList)] := by
  unfold splitCodes
  rw [Text.splitAll_eq_splitOn, List.splitOn_eq_singleton h]
  split <;> simp_all

/-- A blank part gives no code. -/
theorem splitCodes_blank {w : String} (hw : Text.Blank w) : splitCodes w = [] := by
  rw [splitCodes_of_comma_not_mem hw.comma_not_mem, if_pos (Text.trimList_blank hw)]

/-- A code padded with white space gives the code. -/
theorem splitCodes_padded {w₁ x w₂ : String} (h₁ : Text.Blank w₁) (h₂ : Text.Blank w₂)
    (hx : BareCode x) : splitCodes (w₁ ++ x ++ w₂) = [x] := by
  obtain ⟨hne, hcomma, hhead, hlast⟩ := hx
  have htrim : Text.trimList (w₁ ++ x ++ w₂).toList = x.toList := by
    rw [String.toList_append, String.toList_append]
    exact Text.trimList_padded h₁ h₂ hne hhead hlast
  have hnone : ',' ∉ (w₁ ++ x ++ w₂).toList := by
    simp only [String.toList_append, List.mem_append, not_or]
    exact ⟨⟨h₁.comma_not_mem, hcomma⟩, h₂.comma_not_mem⟩
  rw [splitCodes_of_comma_not_mem hnone, htrim, if_neg hne, String.ofList_toList]

/-! ## Padded code lists -/

/-- The parts of a text that decodes to the codes `xs`: each code in order, with white space on
either side, and blank parts (empty or white space only) anywhere around them. -/
inductive CodePadding : List String → List String → Prop
  /-- No codes, no parts. -/
  | nil : CodePadding [] []
  /-- A blank part before the rest. -/
  | blank {xs segs : List String} (w : String) :
      Text.Blank w → CodePadding xs segs → CodePadding xs (w :: segs)
  /-- A code with white space on either side before the rest. -/
  | code {xs segs : List String} (x w₁ w₂ : String) :
      Text.Blank w₁ → Text.Blank w₂ → CodePadding xs segs →
        CodePadding (x :: xs) ((w₁ ++ x ++ w₂) :: segs)

/-- The codes themselves, joined as they are, are a padding of the codes. -/
theorem CodePadding.refl (xs : List String) : CodePadding xs xs := by
  induction xs with
  | nil => exact .nil
  | cons x xs ih =>
    have hempty : Text.Blank "" := fun c hc => by simp at hc
    simpa using CodePadding.code x "" "" hempty hempty ih

/-- The parts of a padding of codes the catalog can write split into those codes. -/
theorem CodePadding.flatMap_splitCodes {xs segs : List String} (h : CodePadding xs segs)
    (hxs : ∀ x ∈ xs, BareCode x) : segs.flatMap splitCodes = xs := by
  induction h with
  | nil => rfl
  | blank w hw _ ih => rw [List.flatMap_cons, splitCodes_blank hw, ih hxs, List.nil_append]
  | code x w₁ w₂ h₁ h₂ _ ih =>
    have hx : BareCode x := hxs x List.mem_cons_self
    rw [List.flatMap_cons, splitCodes_padded h₁ h₂ hx,
      ih fun y hy => hxs y (List.mem_cons_of_mem x hy), List.singleton_append]

/-- Decoding codes the catalog can write, joined by commas, gives them back in order; white
space around the separators and blank parts anywhere change nothing. -/
theorem splitCodes_recovers_codes (xs : List String) (hxs : ∀ x ∈ xs, BareCode x) :
    splitCodes (",".intercalate xs) = xs ∧
      ∀ segs, CodePadding xs segs → splitCodes (",".intercalate segs) = xs := by
  have hpadded : ∀ segs, CodePadding xs segs → splitCodes (",".intercalate segs) = xs :=
    fun segs h => by rw [splitCodes_intercalate, h.flatMap_splitCodes hxs]
  exact ⟨hpadded xs (CodePadding.refl xs), hpadded⟩

/-- The codes `SL` and `CO`, joined, padded or interleaved with blank parts. -/
theorem splitCodes_recovers_codes_select_connect :
    (∀ x ∈ ["SL", "CO"], BareCode x) ∧
      (splitCodes (",".intercalate ["SL", "CO"]) = ["SL", "CO"] ∧
        ∀ segs, CodePadding ["SL", "CO"] segs →
          splitCodes (",".intercalate segs) = ["SL", "CO"]) := by
  have hbare : ∀ x ∈ ["SL", "CO"], BareCode x := by simp [BareCode, Text.isWhiteSpace]
  exact ⟨hbare, splitCodes_recovers_codes ["SL", "CO"] hbare⟩

example : splitCodes " SL , ,CO ," = ["SL", "CO"] := by decide

/-! ## Vocabularies keep each code once -/

namespace Vocabulary

/-- An entry inserted into a code table is either that entry or was there before. -/
theorem mem_insertCode {e y : String × String} {t : List (String × String)}
    (h : y ∈ insertCode e t) : y = e ∨ y ∈ t := by
  induction t with
  | nil => simpa [insertCode] using h
  | cons x xs ih =>
    unfold insertCode at h
    cases hc : compare e.1 x.1 <;> simp only [hc, List.mem_cons] at h
    · exact h.imp_right List.mem_cons.mpr
    · exact h.imp_right (List.mem_cons_of_mem x)
    · rcases h with rfl | h
      · exact .inr List.mem_cons_self
      · exact (ih h).imp_right (List.mem_cons_of_mem x)

/-- Inserting an entry keeps the codes of a table strictly increasing. -/
theorem insertCode_sorted (e : String × String) {t : List (String × String)}
    (h : t.Pairwise (·.1 < ·.1)) : (insertCode e t).Pairwise (·.1 < ·.1) := by
  induction t with
  | nil => exact List.pairwise_singleton _ e
  | cons x xs ih =>
    have hx := List.pairwise_cons.mp h
    unfold insertCode
    cases hc : compare e.1 x.1
    · have hlt : e.1 < x.1 := compare_lt_iff_lt.mp hc
      refine List.pairwise_cons.mpr ⟨?_, h⟩
      intro b hb
      rcases List.mem_cons.mp hb with rfl | hb
      · exact hlt
      · exact hlt.trans (hx.1 b hb)
    · -- the code is already there: its entry is replaced in place
      have heq : e.1 = x.1 := compare_eq_iff_eq.mp hc
      exact List.pairwise_cons.mpr ⟨fun b hb => heq ▸ hx.1 b hb, hx.2⟩
    · have hgt : x.1 < e.1 := compare_gt_iff_gt.mp hc
      refine List.pairwise_cons.mpr ⟨?_, ih hx.2⟩
      intro b hb
      rcases mem_insertCode hb with rfl | hb
      · exact hgt
      · exact hx.1 b hb

/-- A vocabulary built from entries lists each code once, in increasing order. -/
theorem ofEntries_sorted (scope : VocabularyScope) (version : Nat)
    (entries : List (String × String)) :
    (ofEntries scope version entries).codes.Pairwise (·.1 < ·.1) := by
  unfold ofEntries
  dsimp only
  -- the table is built by inserting the entries one by one into the empty table
  suffices h : ∀ t : List (String × String), t.Pairwise (·.1 < ·.1) →
      (entries.foldl (fun t e => insertCode e t) t).Pairwise (·.1 < ·.1) from h [] List.Pairwise.nil
  induction entries with
  | nil => exact fun t ht => ht
  | cons e es ih => exact fun t ht => ih _ (insertCode_sorted e ht)

/-- A vocabulary built from entries has pairwise distinct codes. -/
theorem ofEntries_keys_nodup (scope : VocabularyScope) (version : Nat)
    (entries : List (String × String)) :
    ((ofEntries scope version entries).codes.map Prod.fst).Nodup :=
  List.pairwise_map.mpr ((ofEntries_sorted scope version entries).imp ne_of_lt)

/-! ## Slugs the vocabulary lists -/

/-- A code the vocabulary contains is the code of one of its entries. -/
theorem exists_mem_codes {v : Vocabulary} {c : String} (h : v.contains c = true) :
    ∃ name, (c, name) ∈ v.codes := by
  obtain ⟨p, hp, hc⟩ := List.any_eq_true.mp h
  obtain rfl : p.1 = c := beq_iff_eq.mp hc
  exact ⟨p.2, hp⟩

/-- A code the vocabulary contains has a permission name. -/
theorem permissionName?_isSome {v : Vocabulary} {c : String} (h : v.contains c = true) :
    (v.permissionName? c).isSome := by
  simpa [permissionName?, displayName?, List.find?_isSome, contains, List.any_eq_true] using h

/-- The slugs of the entitlements: each code, followed by its with-grant-option slug in the
scopes that model the option. -/
theorem map_fst_entitlements (v : Vocabulary) :
    v.entitlements.map Prod.fst = v.codes.flatMap fun p =>
      if v.scope.supportsGrantOption then [p.1, p.1 ++ withGrantSuffix] else [p.1] := by
  unfold entitlements
  rw [List.map_flatMap]
  refine List.flatMap_congr fun p _ => ?_
  by_cases hg : v.scope.supportsGrantOption = true <;> simp [hg]

end Vocabulary

/-- A code that does not end in the with-grant-option suffix is no code with the suffix
added. -/
theorem ne_append_withGrantSuffix {a : String} (ha : ¬ withGrantSuffix.toList <:+ a.toList)
    (b : String) : a ≠ b ++ withGrantSuffix := by
  rintro rfl
  exact ha (by simp [List.suffix_append])

/-- The scopes that model the grant option are the server and the database. -/
theorem VocabularyScope.supportsGrantOption_iff (s : VocabularyScope) :
    s.supportsGrantOption = true ↔ s = .server ∨ s = .database := by
  cases s <;> simp [VocabularyScope.supportsGrantOption]

/-- Reading a slug back gives the code and state it was made from, when the code itself does
not end in the with-grant-option suffix. -/
theorem permissionParts_permissionSlug (r : ResourceId) {c : String}
    (hc : ¬ withGrantSuffix.toList <:+ c.toList) (st : PermissionState) :
    (Entitlement.mk r (permissionSlug c st)).permissionParts = (c, st) := by
  cases st with
  | granted =>
    have hno : withGrantSuffix.toList.isSuffixOf c.toList = false :=
      Bool.eq_false_iff.mpr fun h => hc (List.isSuffixOf_iff_suffix.mp h)
    simp [Entitlement.permissionParts, permissionSlug, hno]
  | withGrantOption =>
    simp [Entitlement.permissionParts, permissionSlug]

/-- The entitlement slugs of a vocabulary are pairwise distinct when its codes are and none of
them ends in the with-grant-option suffix. -/
theorem Vocabulary.nodup_entitlement_slugs {v : Vocabulary} (hkeys : (v.codes.map Prod.fst).Nodup)
    (hsuffix : ∀ p ∈ v.codes, ¬ withGrantSuffix.toList <:+ p.1.toList) :
    (v.entitlements.map Prod.fst).Nodup := by
  rw [Vocabulary.map_fst_entitlements, List.nodup_flatMap]
  have hpair : v.codes.Pairwise (fun p q => p.1 ≠ q.1) := List.pairwise_map.mp hkeys
  constructor
  · intro p hp
    split
    · exact List.nodup_cons.mpr ⟨by simpa using ne_append_withGrantSuffix (hsuffix p hp) p.1,
        List.nodup_singleton _⟩
    · exact List.nodup_singleton p.1
  · refine hpair.imp_of_mem fun hp hq hne => ?_
    -- a code and a suffixed code never meet, and distinct codes stay distinct suffixed
    intro s hsp hsq
    by_cases hg : v.scope.supportsGrantOption = true
    · simp only [hg, ↓reduceIte, List.mem_cons, List.not_mem_nil, or_false] at hsp hsq
      rcases hsp with rfl | rfl <;> rcases hsq with h | h
      · exact hne h
      · exact ne_append_withGrantSuffix (hsuffix _ hp) _ h
      · exact ne_append_withGrantSuffix (hsuffix _ hq) _ h.symm
      · exact hne (by simpa using h)
    · simp only [hg, Bool.false_eq_true, ↓reduceIte, List.mem_singleton] at hsp hsq
      exact hne (hsp.symm.trans hsq)

/-- The slug decoding gives a code the vocabulary contains is one the vocabulary lists: the
code itself, or in the scopes that model the grant option possibly the suffixed code. -/
theorem Vocabulary.permissionSlug_mem_entitlements {v : Vocabulary} {c : String}
    (h : v.contains c = true) (state : PermissionState) :
    permissionSlug c (if v.scope.supportsGrantOption then state else .granted) ∈
      v.entitlements.map Prod.fst := by
  obtain ⟨name, hmem⟩ := Vocabulary.exists_mem_codes h
  rw [Vocabulary.map_fst_entitlements, List.mem_flatMap]
  refine ⟨(c, name), hmem, ?_⟩
  by_cases hg : v.scope.supportsGrantOption = true
  · cases state <;> simp [hg, permissionSlug]
  · simp [hg, permissionSlug]

/-- **Slugs agree.** For a vocabulary whose codes are pairwise distinct and none of which ends
in the with-grant-option suffix, decoding a record agrees with what the vocabulary lists and
with reading slugs back: every decoded slug is the slug of a listed entitlement; reading the
decoded slugs back gives the record's codes that the vocabulary knows, in order, each in the
record's state at the server and database scopes and granted elsewhere; each of those codes has
a permission name; and the listed slugs are pairwise distinct. -/
theorem decodeEntitlements_agrees (v : Vocabulary) (hkeys : (v.codes.map Prod.fst).Nodup)
    (hsuffix : ∀ p ∈ v.codes, ¬ withGrantSuffix.toList <:+ p.1.toList)
    (state : PermissionState) (codes : String) (resource : ResourceId) :
    (∀ s ∈ decodeEntitlements state codes v, ∃ d ∈ v.entitlements, d.1 = s) ∧
      (decodeEntitlements state codes v).map (fun s => (Entitlement.mk resource s).permissionParts) =
        ((splitCodes codes).filter v.contains).map
          (fun c => (c, if v.scope = .server ∨ v.scope = .database then state else .granted)) ∧
      (∀ c ∈ (splitCodes codes).filter v.contains, (v.permissionName? c).isSome) ∧
      (v.entitlements.map Prod.fst).Nodup := by
  have hheld : (if v.scope.supportsGrantOption then state else .granted) =
      if v.scope = .server ∨ v.scope = .database then state else .granted := by
    simp only [VocabularyScope.supportsGrantOption_iff]
  have hknown : ∀ c ∈ (splitCodes codes).filter v.contains, v.contains c = true :=
    fun c hc => (List.mem_filter.mp hc).2
  refine ⟨?_, ?_, fun c hc => Vocabulary.permissionName?_isSome (hknown c hc),
    Vocabulary.nodup_entitlement_slugs hkeys hsuffix⟩
  · intro s hs
    obtain ⟨c, hc, rfl⟩ := List.mem_map.mp hs
    exact List.mem_map.mp (Vocabulary.permissionSlug_mem_entitlements (hknown c hc) state)
  · rw [decodeEntitlements, List.map_map, ← hheld]
    refine List.map_congr_left fun c hc => ?_
    -- a known code is a key of the vocabulary, so it does not end in the suffix
    obtain ⟨name, hmem⟩ := Vocabulary.exists_mem_codes (hknown c hc)
    exact permissionParts_permissionSlug resource (hsuffix _ hmem) _

/-- A custom database vocabulary of `SL` and `CO`, built as the catalog builds it, decoding a
record held with the grant option whose codes are padded and include one it does not know. -/
theorem decodeEntitlements_agrees_select_connect :
    let v := Vocabulary.ofEntries .database 1 [("SL", "Select"), ("CO", "Connect")]
    ((v.codes.map Prod.fst).Nodup ∧ ∀ p ∈ v.codes, ¬ withGrantSuffix.toList <:+ p.1.toList) ∧
      ((∀ s ∈ decodeEntitlements .withGrantOption " SL , ZZ,CO" v, ∃ d ∈ v.entitlements, d.1 = s) ∧
        (decodeEntitlements .withGrantOption " SL , ZZ,CO" v).map
            (fun s => (Entitlement.mk ⟨.database, "7"⟩ s).permissionParts) =
          ((splitCodes " SL , ZZ,CO").filter v.contains).map (fun c =>
            (c, if v.scope = .server ∨ v.scope = .database then .withGrantOption else .granted)) ∧
        (∀ c ∈ (splitCodes " SL , ZZ,CO").filter v.contains, (v.permissionName? c).isSome) ∧
        (v.entitlements.map Prod.fst).Nodup) := by
  intro v
  have hkeys : (v.codes.map Prod.fst).Nodup := Vocabulary.ofEntries_keys_nodup _ _ _
  have hsuffix : ∀ p ∈ v.codes, ¬ withGrantSuffix.toList <:+ p.1.toList := by decide
  exact ⟨⟨hkeys, hsuffix⟩,
    decodeEntitlements_agrees v hkeys hsuffix .withGrantOption " SL , ZZ,CO" ⟨.database, "7"⟩⟩

end AccessReview
