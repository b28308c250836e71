import Mathlib
import AccessReview.Proofs.StatementText

/-! # What rendering accepts, and what it reports

Rendering a statement checks its parts one after another and stops at the first it refuses.
A name is accepted when it is non-empty and holds no control character and none of `[`, `]`,
`"`, `'` and `;` (`NameQuotable`); a permission name when it is one or more words of ASCII
capitals separated by single spaces (`PermissionName`). The parts are checked in the order the
body writes them, the database of the `USE` prefix last (`Statement.checks`); permission
statements name their database in the body too, so it is checked there first.

So rendering succeeds exactly when every part of the statement is accepted, and then gives the
statement's template with the names bracket-quoted (`Statement.pieces`); it fails exactly with
the refusal of the first part, in checking order, that is not accepted
(`Statement.render_accepts`).
-/

namespace AccessReview

/-! ## Splitting at every separator -/

/-- Splitting at every occurrence of a separator is the library's `List.splitOn`. -/
theorem Text.splitAll_eq_splitOn (sep : Char) (cs : List Char) :
    Text.splitAll sep cs = cs.splitOn sep := by
  induction cs with
  | nil => rfl
  | cons c cs ih =>
    unfold Text.splitAll
    rw [List.splitOn, List.splitOnP_cons_eq_if_modifyHead, ← List.splitOn, ← ih]
    split
    · rfl
    · -- a split always has a first part, which the character joins
      obtain ⟨first, more, hsplit⟩ : ∃ first more, Text.splitAll sep cs = first :: more := by
        rw [ih]
        exact List.exists_cons_of_ne_nil (List.splitOnP_ne_nil _ _)
      rw [hsplit]
      rfl

/-! ## Accepted parts -/

/-- A name rendering accepts: non-empty, with no control character and none of `[`, `]`, `"`,
`'` and `;`. -/
def NameQuotable (s : String) : Prop :=
  s ≠ "" ∧ ∀ c ∈ s.toList, Text.isControl c = false ∧ c ∉ ['[', ']', '"', '\'', ';']

/-- A permission name rendering accepts: one or more non-empty words of ASCII capitals,
separated by single spaces. -/
def PermissionName (p : String) : Prop :=
  ∃ words : List (List Char), words ≠ [] ∧
    (∀ w ∈ words, w ≠ [] ∧ ∀ c ∈ w, 'A' ≤ c ∧ c ≤ 'Z') ∧ p.toList = [' '].intercalate words

instance (s : String) : Decidable (NameQuotable s) :=
  inferInstanceAs (Decidable (s ≠ "" ∧
    ∀ c ∈ s.toList, Text.isControl c = false ∧ c ∉ ['[', ']', '"', '\'', ';']))

/-- Quoting accepts exactly the quotable names, in brackets, and refuses the others naming
them. -/
theorem quoteIdentifier_eq (s : String) :
    quoteIdentifier s =
      if NameQuotable s then .ok ("[" ++ s ++ "]") else .error (.id (.unquotable s)) := by
  have hiff : (s.isEmpty || s.toList.any fun c => Text.isControl c || forbiddenInIdentifier c) =
      false ↔ NameQuotable s := by
    simp [NameQuotable, forbiddenInIdentifier, and_assoc]
  unfold quoteIdentifier
  cases hb : (s.isEmpty || s.toList.any fun c => Text.isControl c || forbiddenInIdentifier c)
  · rw [if_pos (hiff.mp hb)]
    rfl
  · have hq : ¬NameQuotable s := fun hq => by rw [hiff.mpr hq] at hb; cases hb
    rw [if_neg hq]
    rfl

/-- The permission check is the grammar of permission names: the words between single spaces
are the parts the text splits into. -/
theorem permissionName_iff (p : String) :
    PermissionName p ↔ (!p.isEmpty && (Text.splitAll ' ' p.toList).all
      fun w => !w.isEmpty && w.all isAsciiUpper) = true := by
  simp only [Bool.and_eq_true, Bool.not_eq_true', String.isEmpty_eq_false_iff, List.all_eq_true,
    List.isEmpty_eq_false_iff, isAsciiUpper, Bool.and_eq_true, decide_eq_true_eq,
    Text.splitAll_eq_splitOn]
  constructor
  · rintro ⟨words, hne, hwords, hp⟩
    -- capitals are no spaces, so splitting the joined words gives them back
    have hsplit : p.toList.splitOn ' ' = words := by
      rw [hp]
      refine List.splitOn_intercalate ' ' (fun w hw hsp => ?_) hne
      exact absurd ((hwords w hw).2 ' ' hsp).1 (by decide)
    refine ⟨fun hempty => ?_, fun w hw => ?_⟩
    · rw [hempty] at hsplit
      obtain rfl : words = [[]] := hsplit.symm
      exact (hwords [] (List.mem_singleton_self _)).1 rfl
    · rw [hsplit] at hw
      exact hwords w hw
  · rintro ⟨-, hwords⟩
    exact ⟨p.toList.splitOn ' ', List.splitOnP_ne_nil _ _, hwords,
      (List.intercalate_splitOn ' ').symm⟩

instance (p : String) : Decidable (PermissionName p) := decidable_of_iff _ (permissionName_iff p).symm

/-- The permission check accepts exactly the permission names, as they are, and refuses the
others naming them. -/
theorem permissionKeyword_eq (p : String) :
    permissionKeyword p =
      if PermissionName p then .ok p else .error (.entitlement (.notPermissionName p)) := by
  unfold permissionKeyword
  dsimp only
  by_cases hp : PermissionName p
  · rw [if_pos ((permissionName_iff p).mp hp), if_pos hp]
  · rw [if_neg (mt (permissionName_iff p).mpr hp), if_neg hp]

/-! ## The parts of a statement, in checking order -/

/-- What rendering accepts of a piece; template text is always accepted. -/
def Piece.Accepted : Piece → Prop
  | .text _ => True
  | .name s => NameQuotable s
  | .keyword p => PermissionName p

instance : DecidablePred Piece.Accepted
  | .text _ => inferInstanceAs (Decidable True)
  | .name s => inferInstanceAs (Decidable (NameQuotable s))
  | .keyword p => inferInstanceAs (Decidable (PermissionName p))

/-- The refusal rendering reports for a name or a permission name it does not accept. -/
def Piece.refusal? : Piece → Option Error
  | .text _ => none
  | .name s => some (.id (.unquotable s))
  | .keyword p => some (.entitlement (.notPermissionName p))

/-- Whether a piece is template text. -/
def Piece.isText : Piece → Bool
  | .text _ => true
  | .name _ | .keyword _ => false

/-- The pieces rendering checks, in the order it checks them: the body's names and permission
name in textual order, then the database of the `USE` prefix. -/
def Statement.checks (s : Statement) : List Piece :=
  s.bodyPieces.filter (fun p => !p.isText) ++ (s.database?.map fun db => Piece.name db.text).toList

/-- `e` is the refusal of the first piece of `ps` that is not accepted. -/
def FirstRefusal (ps : List Piece) (e : Error) : Prop :=
  ∃ pre p post, ps = pre ++ p :: post ∧ (∀ q ∈ pre, q.Accepted) ∧ ¬p.Accepted ∧ p.refusal? = some e

@[simp] theorem firstRefusal_nil (e : Error) : ¬FirstRefusal [] e := by
  rintro ⟨pre, p, post, h, -⟩
  simp at h

theorem firstRefusal_cons (p : Piece) (ps : List Piece) (e : Error) :
    FirstRefusal (p :: ps) e ↔ (¬p.Accepted ∧ p.refusal? = some e) ∨ (p.Accepted ∧ FirstRefusal ps e) := by
  constructor
  · rintro ⟨pre, q, post, hps, hpre, hq, hr⟩
    cases pre with
    | nil =>
      obtain ⟨rfl, rfl⟩ := List.cons.inj hps
      exact .inl ⟨hq, hr⟩
    | cons a pre =>
      obtain ⟨rfl, rfl⟩ := List.cons.inj hps
      exact .inr ⟨hpre p List.mem_cons_self, pre, q, post, rfl,
        fun x hx => hpre x (List.mem_cons_of_mem p hx), hq, hr⟩
  · rintro (⟨hp, hr⟩ | ⟨hp, pre, q, post, rfl, hpre, hq, hr⟩)
    · exact ⟨[], p, ps, rfl, by simp, hp, hr⟩
    · refine ⟨p :: pre, q, post, rfl, fun x hx => ?_, hq, hr⟩
      rcases List.mem_cons.mp hx with rfl | hx
      exacts [hp, hpre x hx]

/-- A piece rendering does not accept is a name or a permission name, with its refusal. -/
theorem Piece.refusal?_of_not_accepted {p : Piece} (h : ¬p.Accepted) : ∃ e, p.refusal? = some e := by
  cases p with
  | text s => exact absurd trivial h
  | name s => exact ⟨_, rfl⟩
  | keyword s => exact ⟨_, rfl⟩

/-- Some piece has a first refusal exactly when some piece is not accepted. -/
theorem exists_firstRefusal_iff (ps : List Piece) :
    (∃ e, FirstRefusal ps e) ↔ ∃ p ∈ ps, ¬p.Accepted := by
  induction ps with
  | nil => simp
  | cons p ps ih =>
    simp only [firstRefusal_cons, List.mem_cons, exists_eq_or_imp]
    by_cases hp : p.Accepted
    · simp [hp, ih]
    · obtain ⟨e, he⟩ := Piece.refusal?_of_not_accepted hp
      exact ⟨fun _ => .inl hp, fun _ => ⟨e, .inl ⟨hp, he⟩⟩⟩

/-- The pieces rendering checks are accepted exactly when every piece of the statement is:
the text between them is always accepted. -/
theorem Statement.accepted_checks_iff (s : Statement) :
    (∀ p ∈ s.checks, p.Accepted) ↔ ∀ p ∈ s.pieces, p.Accepted := by
  have htext : ∀ p : Piece, p.isText = true → p.Accepted := by
    intro p hp
    cases p with
    | text t => trivial
    | name t | keyword t => cases hp
  unfold Statement.checks Statement.pieces
  cases s.database? with
  | none =>
    simp only [Option.map_none, Option.toList_none, List.append_nil, List.mem_filter,
      Bool.not_eq_true']
    exact ⟨fun h p hp => by cases hpt : p.isText; exacts [h p ⟨hp, hpt⟩, htext p hpt],
      fun h p hp => h p hp.1⟩
  | some db =>
    simp only [Option.map_some, Option.toList_some, List.mem_append, List.mem_filter,
      Bool.not_eq_true', List.mem_cons, List.not_mem_nil, or_false]
    constructor
    · intro h p hp
      rcases hp with (rfl | rfl | rfl) | hp
      · trivial
      · exact h _ (.inr rfl)
      · trivial
      · cases hpt : p.isText
        exacts [h p (.inl ⟨hp, hpt⟩), htext p hpt]
    · rintro h p (⟨hp, -⟩ | rfl)
      · exact h p (.inr hp)
      · exact h _ (.inl (.inr (.inl rfl)))

/-! ## Rendering -/

/-- A check that succeeds or fails, followed by what depends on its value. -/
theorem ite_ok_bind {α β : Type} (c : Prop) [Decidable c] (a : α) (e : Error)
    (f : α → Except Error β) :
    ((if c then .ok a else .error e) >>= f) = if c then f a else .error e := by
  split <;> rfl

section Checks

variable {β : Type} {f : String → Except Error β} {ps : List Piece} {e : Error}

/-- One check of rendering: a piece it accepts gives its text and rendering goes on, one it
does not stops rendering with the piece's refusal. So the check and what follows fail with `e`
exactly when `e` is the first refusal of the piece and the checks that follow. -/
theorem Piece.check_bind_eq_error_iff (p : Piece) {v : String} {r : Error}
    (hr : p.refusal? = some r) (hf : p.Accepted → (f v = .error e ↔ FirstRefusal ps e)) :
    ((if p.Accepted then .ok v else .error r) >>= f) = .error e ↔ FirstRefusal (p :: ps) e := by
  rw [ite_ok_bind, firstRefusal_cons, hr]
  by_cases hp : p.Accepted
  · rw [if_pos hp, hf hp]
    simp [hp]
  · rw [if_neg hp]
    simp [hp]

/-- Quoting a name is the check of the name. -/
theorem quoteIdentifier_bind_eq_error_iff {s : String}
    (hf : NameQuotable s → (f ("[" ++ s ++ "]") = .error e ↔ FirstRefusal ps e)) :
    (quoteIdentifier s >>= f) = .error e ↔ FirstRefusal (.name s :: ps) e := by
  rw [quoteIdentifier_eq]
  exact Piece.check_bind_eq_error_iff (.name s) rfl hf

/-- Reading a permission name is the check of the permission name. -/
theorem permissionKeyword_bind_eq_error_iff {p : String}
    (hf : PermissionName p → (f p = .error e ↔ FirstRefusal ps e)) :
    (permissionKeyword p >>= f) = .error e ↔ FirstRefusal (.keyword p :: ps) e := by
  rw [permissionKeyword_eq]
  exact Piece.check_bind_eq_error_iff (.keyword p) rfl hf

/-- Once every check has passed, writing the text cannot fail. -/
theorem pure_eq_error_iff (t : String) :
    (pure t : Except Error String) = .error e ↔ FirstRefusal [] e := by
  simp [pure, Except.pure]

end Checks

/-- Rendering fails exactly with the refusal of the first piece, in checking order, that it
does not accept. -/
theorem Statement.render_eq_error_iff (s : Statement) (e : Error) :
    s.render = .error e ↔ FirstRefusal s.checks e := by
  -- rendering is the chain of the checks in `s.checks`, in that order, ending in the text:
  -- each kind of statement takes its checks off one by one
  cases s with
  | addServerRoleMember | dropServerRoleMember =>
    -- the role, then the member
    simp only [Statement.render, Statement.body, Statement.database?, bind_assoc, pure_bind]
    exact quoteIdentifier_bind_eq_error_iff fun _ =>
      quoteIdentifier_bind_eq_error_iff fun _ => pure_eq_error_iff _
  | addDatabaseRoleMember | dropDatabaseRoleMember | createDatabaseUser =>
    -- the two names of the body, then the database of the prefix
    simp only [Statement.render, Statement.body, Statement.database?, bind_assoc, pure_bind]
    exact quoteIdentifier_bind_eq_error_iff fun _ => quoteIdentifier_bind_eq_error_iff fun _ =>
      quoteIdentifier_bind_eq_error_iff fun _ => pure_eq_error_iff _
  | grantDatabasePermission =>
    -- the permission name, the database and the user, then the database of the prefix
    simp only [Statement.render, Statement.body, Statement.database?, bind_assoc, pure_bind]
    exact permissionKeyword_bind_eq_error_iff fun _ => quoteIdentifier_bind_eq_error_iff fun _ =>
      quoteIdentifier_bind_eq_error_iff fun _ => quoteIdentifier_bind_eq_error_iff fun _ =>
        pure_eq_error_iff _
  | revokeDatabasePermission _ _ _ optionOnly =>
    -- the checks of a grant; the two forms of the text differ only after them
    cases optionOnly <;>
      simp only [Statement.render, Statement.body, Statement.database?, bind_assoc, pure_bind,
        Bool.false_eq_true, ↓reduceIte] <;>
      exact permissionKeyword_bind_eq_error_iff fun _ => quoteIdentifier_bind_eq_error_iff fun _ =>
        quoteIdentifier_bind_eq_error_iff fun _ => quoteIdentifier_bind_eq_error_iff fun _ =>
          pure_eq_error_iff _

/-- Rendering succeeds exactly when every part of the statement is accepted. -/
theorem Statement.render_isOk_iff (s : Statement) :
    (∃ t, s.render = .ok t) ↔ ∀ p ∈ s.pieces, p.Accepted := by
  rw [← Statement.accepted_checks_iff]
  constructor
  · rintro ⟨t, ht⟩ p hp
    by_contra hnot
    obtain ⟨e, he⟩ := (exists_firstRefusal_iff s.checks).mpr ⟨p, hp, hnot⟩
    rw [← Statement.render_eq_error_iff, ht] at he
    cases he
  · intro hacc
    cases hr : s.render with
    | ok t => exact ⟨t, rfl⟩
    | error e =>
      obtain ⟨p, hp, hnot⟩ := (exists_firstRefusal_iff s.checks).mp
        ⟨e, (Statement.render_eq_error_iff s e).mp hr⟩
      exact absurd (hacc p hp) hnot

/-- Rendering accepts exactly the statements every part of which is accepted: every name
non-empty and free of control characters and of `[`, `]`, `"`, `'` and `;`, every permission
name words of ASCII capitals separated by single spaces. The text is then the statement's
template with the names bracket-quoted, after `USE [<database>]; ` for a statement on a
database. A refusal is that of the first part not accepted, in the order rendering checks
them: the body's parts as they are written, then the database of the prefix. -/
theorem Statement.render_accepts (s : Statement) :
    (∀ t, s.render = .ok t ↔
      (∀ p ∈ s.pieces, p.Accepted) ∧ t.toList = s.pieces.flatMap Piece.chars) ∧
    (∀ e, s.render = .error e ↔ FirstRefusal s.checks e) := by
  refine ⟨fun t => ⟨fun h => ⟨(s.render_isOk_iff).mp ⟨t, h⟩, (Statement.render_eq_ok h).2⟩, ?_⟩,
    s.render_eq_error_iff⟩
  rintro ⟨hacc, ht⟩
  obtain ⟨t', h'⟩ := (s.render_isOk_iff).mpr hacc
  -- the text rendered is the template's, so it is `t`
  have hsame : t' = t := String.toList_inj.mp ((Statement.render_eq_ok h').2.trans ht.symm)
  rw [h', hsame]

/-- A grant whose permission name and user name are both refused reports the permission name,
which its text writes first. -/
example : (Statement.grantDatabasePermission ⟨"sales"⟩ "select" ⟨"bo;b"⟩ false).render =
    .error (.entitlement (.notPermissionName "select")) := by decide

end AccessReview
