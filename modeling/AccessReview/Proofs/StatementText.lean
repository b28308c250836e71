import Mathlib
import AccessReview.Statement

/-! # Rendered statements read back

A rendered statement is its template with names spliced in: template text, bracket-quoted
names, and for permission statements a permission name (`Statement.pieces`). Rendering
succeeds only when each name can be quoted, so a name holds no `[`, `]` or `;`, and each
permission name is upper-case words, so it holds no `:`. That is enough to read the text
back: a quoted name ends at the first `]`, and a permission name at the first `:`
(`Statement.read`). Hence two statements that render to the same text are equal
(`render_unambiguous`): a name cannot close its brackets, end the statement, or pose as
template text, whatever keywords, quotes or Unicode it holds.

The same pieces give the structure of every rendered text: its brackets and semicolons are
exactly those of the template (`Statement.delimiters`), one `;` per T-SQL statement.
-/

namespace AccessReview

/-! ## Pieces of a statement -/

/-- A part of a statement's text. -/
inductive Piece where
  /-- Text of the template. -/
  | text (s : String)
  /-- A name, quoted in brackets. -/
  | name (s : String)
  /-- A permission name. -/
  | keyword (s : String)
  deriving DecidableEq, Repr

/-- The characters a piece puts in the text. -/
def Piece.chars : Piece → List Char
  | .text s => s.toList
  | .name s => '[' :: s.toList ++ [']']
  | .keyword s => s.toList

/-- What rendering checked of a piece: a name holds no character that cannot be quoted, a
permission name only upper-case letters and spaces. -/
def Piece.Checked : Piece → Prop
  | .text _ => True
  | .name s => ∀ c ∈ s.toList, forbiddenInIdentifier c = false
  | .keyword s => ∀ c ∈ s.toList, c = ' ' ∨ isAsciiUpper c = true

/-- The pieces of a statement's body. -/
def Statement.bodyPieces : Statement → List Piece
  | .addServerRoleMember role login =>
    [.text "ALTER SERVER ROLE ", .name role.text, .text " ADD MEMBER ", .name login.text, .text ";"]
  | .dropServerRoleMember role login =>
    [.text "ALTER SERVER ROLE ", .name role.text, .text " DROP MEMBER ", .name login.text, .text ";"]
  | .addDatabaseRoleMember _ role user =>
    [.text "ALTER ROLE ", .name role.text, .text " ADD MEMBER ", .name user.text, .text ";"]
  | .dropDatabaseRoleMember _ role user =>
    [.text "ALTER ROLE ", .name role.text, .text " DROP MEMBER ", .name user.text, .text ";"]
  | .createDatabaseUser _ user login =>
    [.text "CREATE USER ", .name user.text, .text " FOR LOGIN ", .name login.text, .text ";"]
  | .grantDatabasePermission db permission user withOption =>
    [.text "GRANT ", .keyword permission, .text " ON DATABASE::", .name db.text, .text " TO ",
      .name user.text, .text (if withOption then " WITH GRANT OPTION;" else ";")]
  | .revokeDatabasePermission db permission user optionOnly =>
    if optionOnly then
      [.text "REVOKE GRANT OPTION FOR ", .keyword permission, .text " ON DATABASE::",
        .name db.text, .text " FROM ", .name user.text, .text " CASCADE;"]
    else
      [.text "REVOKE ", .keyword permission, .text " ON DATABASE::", .name db.text,
        .text " FROM ", .name user.text, .text ";"]

/-- The pieces of a statement: its body, after `USE [<database>]; ` when it runs in one. -/
def Statement.pieces (s : Statement) : List Piece :=
  match s.database? with
  | some db => [.text "USE ", .name db.text, .text "; "] ++ s.bodyPieces
  | none => s.bodyPieces


/-! ## What a successful rendering says -/

/-- A sequence of checks succeeds when the first does and the rest succeed on its value. -/
theorem except_bind_eq_ok {ε α β : Type} {x : Except ε α} {f : α → Except ε β} {b : β} :
    x >>= f = .ok b ↔ ∃ a, x = .ok a ∧ f a = .ok b := by
  cases x <;> simp [bind, Except.bind]

/-- A character that is not the separator lies in one of the parts. -/
theorem Text.mem_splitAll {sep c : Char} {cs : List Char} (h : c ∈ cs) (hc : c ≠ sep) :
    ∃ w ∈ Text.splitAll sep cs, c ∈ w := by
  induction cs with
  | nil => simp at h
  | cons d rest ih =>
    unfold Text.splitAll
    rcases List.mem_cons.mp h with rfl | hr
    · rw [if_neg (by simpa using hc)]
      split <;> simp_all
    · obtain ⟨w, hw, hcw⟩ := ih hr
      split
      · exact ⟨w, List.mem_cons_of_mem _ hw, hcw⟩
      · split
        · next hnil => simp [hnil] at hw
        · next first more hsplit =>
          rw [hsplit, List.mem_cons] at hw
          rcases hw with rfl | hw
          · exact ⟨d :: w, by simp, by simp [hcw]⟩
          · exact ⟨w, List.mem_cons_of_mem _ hw, hcw⟩

/-- A quoted name is the name in brackets, and it holds no character that cannot be quoted. -/
theorem quoteIdentifier_eq_ok {s q : String} (h : quoteIdentifier s = .ok q) :
    q = "[" ++ s ++ "]" ∧ (Piece.name s).Checked := by
  unfold quoteIdentifier at h
  split at h
  · cases h
  · next hc =>
    cases h
    refine ⟨rfl, fun c hcs => ?_⟩
    simp only [Bool.or_eq_true, List.any_eq_true, not_or, not_exists, not_and] at hc
    simpa using (hc.2 c hcs).2

/-- An accepted permission name is kept as it is, and it holds only upper-case letters and
spaces. -/
theorem permissionKeyword_eq_ok {p q : String} (h : permissionKeyword p = .ok q) :
    q = p ∧ (Piece.keyword p).Checked := by
  unfold permissionKeyword at h
  dsimp only at h
  split at h
  · next hw =>
    cases h
    refine ⟨rfl, fun c hcp => ?_⟩
    by_cases hsp : c = ' '
    · exact .inl hsp
    · obtain ⟨w, hw', hcw⟩ := Text.mem_splitAll hcp hsp
      simp only [Bool.and_eq_true, Bool.not_eq_true', List.all_eq_true] at hw
      exact .inr ((hw.2 w hw').2 c hcw)
  · cases h


/-- The body of a statement naming two principals, rendered: template text around the two
quoted names, each checked. -/
theorem quotedPair_eq_ok {a b x y out : String}
    (h : (do return a ++ (← quoteIdentifier x) ++ b ++ (← quoteIdentifier y) ++ ";" :
      Except Error String) = .ok out) :
    (∀ p ∈ [.text a, .name x, .text b, .name y, .text ";"], Piece.Checked p) ∧
      out.toList = [.text a, .name x, .text b, .name y, .text ";"].flatMap Piece.chars := by
  simp only [except_bind_eq_ok] at h
  obtain ⟨q₁, h₁, q₂, h₂, hout⟩ := h
  obtain ⟨rfl, c₁⟩ := quoteIdentifier_eq_ok h₁
  obtain ⟨rfl, c₂⟩ := quoteIdentifier_eq_ok h₂
  cases hout
  exact ⟨by simpa [Piece.Checked] using And.intro c₁ c₂, by simp [Piece.chars]⟩

/-- A rendered body is the text of its pieces, and rendering checked each piece. -/
theorem Statement.body_eq_ok {s : Statement} {b : String} (h : s.body = .ok b) :
    (∀ p ∈ s.bodyPieces, p.Checked) ∧ b.toList = s.bodyPieces.flatMap Piece.chars := by
  cases s with
  | grantDatabasePermission db permission user withOption =>
    simp only [Statement.body, except_bind_eq_ok] at h
    obtain ⟨p, hp, d, hd, u, hu, hb⟩ := h
    obtain ⟨rfl, cp⟩ := permissionKeyword_eq_ok hp
    obtain ⟨rfl, cd⟩ := quoteIdentifier_eq_ok hd
    obtain ⟨rfl, cu⟩ := quoteIdentifier_eq_ok hu
    cases hb
    exact ⟨by simpa [Statement.bodyPieces, Piece.Checked] using And.intro cp (And.intro cd cu),
      by cases withOption <;> simp [Statement.bodyPieces, Piece.chars]⟩
  | revokeDatabasePermission db permission user optionOnly =>
    simp only [Statement.body, except_bind_eq_ok] at h
    obtain ⟨p, hp, d, hd, u, hu, hb⟩ := h
    obtain ⟨rfl, cp⟩ := permissionKeyword_eq_ok hp
    obtain ⟨rfl, cd⟩ := quoteIdentifier_eq_ok hd
    obtain ⟨rfl, cu⟩ := quoteIdentifier_eq_ok hu
    have checked := And.intro cp (And.intro cd cu)
    cases optionOnly with
    | false =>
      cases hb
      exact ⟨by simpa [Statement.bodyPieces, Piece.Checked] using checked,
        by simp [Statement.bodyPieces, Piece.chars]⟩
    | true =>
      cases hb
      exact ⟨by simpa [Statement.bodyPieces, Piece.Checked] using checked,
        by simp [Statement.bodyPieces, Piece.chars]⟩
  | _ => exact quotedPair_eq_ok h

/-- A rendered statement is the text of its pieces, and rendering checked each piece. -/
theorem Statement.render_eq_ok {s : Statement} {t : String} (h : s.render = .ok t) :
    (∀ p ∈ s.pieces, p.Checked) ∧ t.toList = s.pieces.flatMap Piece.chars := by
  unfold Statement.render at h
  rw [except_bind_eq_ok] at h
  obtain ⟨b, hb, ht⟩ := h
  obtain ⟨checked, hbody⟩ := Statement.body_eq_ok hb
  unfold Statement.pieces
  cases hdb : s.database? with
  | none =>
    rw [hdb] at ht
    cases ht
    exact ⟨checked, hbody⟩
  | some db =>
    -- the `USE` prefix quotes the database once more
    rw [hdb] at ht
    simp only [except_bind_eq_ok] at ht
    obtain ⟨q, hq, ht⟩ := ht
    obtain ⟨rfl, cq⟩ := quoteIdentifier_eq_ok hq
    cases ht
    refine ⟨fun p hp => ?_, by simp [Piece.chars, hbody]⟩
    rcases List.mem_append.mp hp with hp | hp
    · simp only [List.mem_cons, List.not_mem_nil, or_false] at hp
      rcases hp with rfl | rfl | rfl
      exacts [trivial, cq, trivial]
    · exact checked p hp

/-! ## Reading a statement back -/

/-- The text after a literal prefix, when the text starts with it. -/
def dropLiteral : List Char → List Char → Option (List Char)
  | [], cs => some cs
  | a :: lit, c :: cs => if a = c then dropLiteral lit cs else none
  | _ :: _, [] => none

/-- The text before a literal suffix, when the text ends with it. -/
def dropSuffix (suffix cs : List Char) : Option (List Char) :=
  (dropLiteral suffix.reverse cs.reverse).map List.reverse

/-- Whether a text is exactly a literal. -/
def isLiteral (lit : String) (cs : List Char) : Bool := dropLiteral lit.toList cs == some []

/-- A bracket-quoted name: the text up to the first `]`. -/
def readQuoted (cs : List Char) : Option (String × List Char) := do
  let cs ← dropLiteral ['['] cs
  let (name, rest) ← Text.splitFirst ']' cs
  return (String.ofList name, rest)

/-- A permission name and the `ON DATABASE::` after it: the text up to the first `:`. -/
def readPermission (cs : List Char) : Option (String × List Char) := do
  let (before, rest) ← Text.splitFirst ':' cs
  let permission ← dropSuffix " ON DATABASE".toList before
  let rest ← dropLiteral [':'] rest
  return (String.ofList permission, rest)

/-- The verb of a role membership: whether the member is added or dropped. -/
def readMemberVerb (cs : List Char) : Option (Bool × List Char) :=
  (dropLiteral " ADD MEMBER ".toList cs).map (true, ·) <|>
    (dropLiteral " DROP MEMBER ".toList cs).map (false, ·)

/-- A role membership statement after its opening words: the role, the verb and the member. -/
def readMembership (opening : String) (make : Bool → PrincipalName → PrincipalName → Statement)
    (cs : List Char) : Option Statement := do
  let cs ← dropLiteral opening.toList cs
  let (role, cs) ← readQuoted cs
  let (add, cs) ← readMemberVerb cs
  let (member, cs) ← readQuoted cs
  if isLiteral ";" cs then some (make add ⟨role⟩ ⟨member⟩) else none

/-- A `CREATE USER` statement in a database. -/
def readCreateUser (db : DatabaseName) (cs : List Char) : Option Statement := do
  let cs ← dropLiteral "CREATE USER ".toList cs
  let (user, cs) ← readQuoted cs
  let cs ← dropLiteral " FOR LOGIN ".toList cs
  let (login, cs) ← readQuoted cs
  if isLiteral ";" cs then some (.createDatabaseUser db ⟨user⟩ ⟨login⟩) else none

/-- A `GRANT` statement in a database; the database it names again is the one it runs in. -/
def readGrant (db : DatabaseName) (cs : List Char) : Option Statement := do
  let cs ← dropLiteral "GRANT ".toList cs
  let (permission, cs) ← readPermission cs
  let (_, cs) ← readQuoted cs
  let cs ← dropLiteral " TO ".toList cs
  let (user, cs) ← readQuoted cs
  if isLiteral ";" cs then some (.grantDatabasePermission db permission ⟨user⟩ false)
  else if isLiteral " WITH GRANT OPTION;" cs then
    some (.grantDatabasePermission db permission ⟨user⟩ true)
  else none

/-- A `REVOKE` statement in a database. Revoking only the grant option reads at first as
revoking a permission named `GRANT OPTION FOR ...`; the closing `CASCADE` tells them apart. -/
def readRevoke (db : DatabaseName) (cs : List Char) : Option Statement := do
  let cs ← dropLiteral "REVOKE ".toList cs
  let (permission, cs) ← readPermission cs
  let (_, cs) ← readQuoted cs
  let cs ← dropLiteral " FROM ".toList cs
  let (user, cs) ← readQuoted cs
  if isLiteral ";" cs then some (.revokeDatabasePermission db permission ⟨user⟩ false)
  else if isLiteral " CASCADE;" cs then do
    let permission ← dropLiteral "GRANT OPTION FOR ".toList permission.toList
    some (.revokeDatabasePermission db (String.ofList permission) ⟨user⟩ true)
  else none

/-- A statement that runs in a database, after its `USE` prefix. -/
def readInDatabase (db : DatabaseName) (cs : List Char) : Option Statement :=
  readMembership "ALTER ROLE "
      (fun add => if add then .addDatabaseRoleMember db else .dropDatabaseRoleMember db) cs <|>
    readCreateUser db cs <|> readGrant db cs <|> readRevoke db cs

/-- The statement a text renders, read back: a `USE [<database>]; ` prefix and a database
statement, or a server role membership. -/
def Statement.read (cs : List Char) : Option Statement :=
  match dropLiteral "USE ".toList cs with
  | some cs => do
    let (db, cs) ← readQuoted cs
    let cs ← dropLiteral "; ".toList cs
    readInDatabase ⟨db⟩ cs
  | none =>
    readMembership "ALTER SERVER ROLE "
      (fun add => if add then .addServerRoleMember else .dropServerRoleMember) cs

section Reading

@[simp] theorem Piece.chars_text (s : String) : (Piece.text s).chars = s.toList := rfl

/-- A text starting with a literal reads it off. -/
@[simp] theorem dropLiteral_append (lit rest : List Char) :
    dropLiteral lit (lit ++ rest) = some rest := by
  induction lit with
  | nil => rfl
  | cons a lit ih => simp [dropLiteral, ih]

/-- A literal is not read off a text that starts with a literal disagreeing with it. -/
theorem dropLiteral_append_of_disagree {lit lit' : List Char} (h₁ : lit.isPrefixOf lit' = false)
    (h₂ : lit'.isPrefixOf lit = false) (rest : List Char) : dropLiteral lit (lit' ++ rest) = none := by
  induction lit generalizing lit' with
  | nil => simp at h₁
  | cons a lit ih =>
    cases lit' with
    | nil => simp at h₂
    | cons b lit' =>
      simp only [List.cons_append, dropLiteral]
      by_cases hab : a = b
      · subst hab
        rw [if_pos rfl]
        exact ih (by simpa using h₁) (by simpa using h₂)
      · rw [if_neg hab]

/-- A text ending with a literal reads it off the end. -/
theorem dropSuffix_append (x suffix : List Char) : dropSuffix suffix (x ++ suffix) = some x := by
  simp [dropSuffix, List.reverse_append]

/-- A literal is exactly itself. -/
@[simp] theorem isLiteral_self (lit : String) : isLiteral lit lit.toList = true := by
  simpa [isLiteral] using dropLiteral_append lit.toList []

/-- A text is not a literal it disagrees with. -/
theorem isLiteral_of_disagree {lit lit' : String} (h₁ : lit.toList.isPrefixOf lit'.toList = false)
    (h₂ : lit'.toList.isPrefixOf lit.toList = false) : isLiteral lit lit'.toList = false := by
  have := dropLiteral_append_of_disagree h₁ h₂ []
  rw [List.append_nil] at this
  simp [isLiteral, this]

/-- A text splits at the first separator. -/
theorem Text.splitFirst_append {sep : Char} {before after : List Char} (h : sep ∉ before) :
    Text.splitFirst sep (before ++ sep :: after) = some (before, after) := by
  have hall : ∀ c ∈ before, (c != sep) = true := by
    intro c hc
    have : c ≠ sep := fun e => h (e ▸ hc)
    simpa using this
  unfold Text.splitFirst
  rw [List.span_eq_takeWhile_dropWhile, List.takeWhile_append_of_pos hall,
    List.dropWhile_append_of_pos hall]
  simp

/-- A quoted name that rendering accepted reads back whole: it holds no `]`. -/
theorem readQuoted_name {s : String} (h : (Piece.name s).Checked) (rest : List Char) :
    readQuoted ((Piece.name s).chars ++ rest) = some (s, rest) := by
  have hclose : ']' ∉ s.toList := fun hc => by simpa [forbiddenInIdentifier] using h _ hc
  have htext : (Piece.name s).chars ++ rest = ['['] ++ (s.toList ++ ']' :: rest) := by
    simp [Piece.chars]
  rw [htext, readQuoted, dropLiteral_append]
  simp only [Option.bind_eq_bind, Option.bind_some]
  rw [Text.splitFirst_append hclose]
  simp

/-- A permission name that rendering accepted reads back whole: it holds no `:`. -/
theorem readPermission_keyword {p : String} (h : (Piece.keyword p).Checked) (rest : List Char) :
    readPermission ((Piece.keyword p).chars ++ (" ON DATABASE::".toList ++ rest)) =
      some (p, rest) := by
  have hcolon : ':' ∉ p.toList ++ " ON DATABASE".toList := by
    rw [List.mem_append, not_or]
    refine ⟨fun hc => ?_, by decide⟩
    rcases h _ hc with h | h
    · cases h
    · simp [isAsciiUpper] at h
  have htext : (Piece.keyword p).chars ++ (" ON DATABASE::".toList ++ rest) =
      (p.toList ++ " ON DATABASE".toList) ++ ':' :: ':' :: rest := by
    simp [Piece.chars]
  rw [htext, readPermission, Text.splitFirst_append hcolon]
  simp only [Option.bind_eq_bind, Option.bind_some]
  rw [dropSuffix_append]
  simp [dropLiteral]

/-- A reader that starts with a literal refuses a text starting with a disagreeing one. -/
theorem dropLiteral_bind_of_disagree {α : Type} {lit lit' : List Char}
    (h₁ : lit.isPrefixOf lit' = false) (h₂ : lit'.isPrefixOf lit = false) (rest : List Char)
    (f : List Char → Option α) : (dropLiteral lit (lit' ++ rest) >>= f) = none := by
  rw [dropLiteral_append_of_disagree h₁ h₂]
  rfl

/-- A reader that starts with a literal refuses a text whose first piece disagrees with it. -/
theorem dropLiteral_pieces_of_disagree {α : Type} {opening first : String}
    (h₁ : opening.toList.isPrefixOf first.toList = false)
    (h₂ : first.toList.isPrefixOf opening.toList = false) (rest : List Piece)
    (f : List Char → Option α) :
    (dropLiteral opening.toList ((Piece.text first :: rest).flatMap Piece.chars) >>= f) = none := by
  rw [List.flatMap_cons, Piece.chars_text]
  exact dropLiteral_bind_of_disagree h₁ h₂ _ f

/-- The verb of a membership reads back. -/
theorem readMemberVerb_verb (add : Bool) (rest : List Char) :
    readMemberVerb ((if add then " ADD MEMBER " else " DROP MEMBER ").toList ++ rest) =
      some (add, rest) := by
  cases add with
  | true =>
    rw [if_pos rfl, readMemberVerb, dropLiteral_append]
    rfl
  | false =>
    rw [if_neg Bool.false_ne_true, readMemberVerb,
      dropLiteral_append_of_disagree (by decide) (by decide), dropLiteral_append]
    rfl

/-- A role membership whose names rendering accepted reads back. -/
theorem readMembership_pieces {opening : String} {make : Bool → PrincipalName → PrincipalName → Statement}
    (add : Bool) {role member : PrincipalName} (hr : (Piece.name role.text).Checked)
    (hm : (Piece.name member.text).Checked) :
    readMembership opening make
        ([.text opening, .name role.text, .text (if add then " ADD MEMBER " else " DROP MEMBER "),
          .name member.text, .text ";"].flatMap Piece.chars) = some (make add role member) := by
  simp only [List.flatMap_cons, List.flatMap_nil, List.append_nil, Piece.chars_text, readMembership,
    dropLiteral_append, Option.bind_eq_bind, Option.bind_some]
  rw [readQuoted_name hr]
  simp only [Option.bind_some]
  rw [readMemberVerb_verb]
  simp only [Option.bind_some]
  rw [readQuoted_name hm]
  simp only [Option.bind_some, isLiteral_self, if_true]

/-- A `CREATE USER` statement whose names rendering accepted reads back. -/
theorem readCreateUser_pieces (db : DatabaseName) {user login : PrincipalName}
    (hu : (Piece.name user.text).Checked) (hl : (Piece.name login.text).Checked) :
    readCreateUser db ((Statement.createDatabaseUser db user login).bodyPieces.flatMap Piece.chars) =
      some (.createDatabaseUser db user login) := by
  simp only [Statement.bodyPieces, List.flatMap_cons, List.flatMap_nil, List.append_nil,
    Piece.chars_text, readCreateUser, dropLiteral_append, Option.bind_eq_bind, Option.bind_some]
  rw [readQuoted_name hu]
  simp only [Option.bind_some, dropLiteral_append]
  rw [readQuoted_name hl]
  simp only [Option.bind_some, isLiteral_self, if_true]

/-- A `GRANT` statement whose parts rendering accepted reads back. -/
theorem readGrant_pieces {db : DatabaseName} {permission : String} {user : PrincipalName}
    (withOption : Bool) (hp : (Piece.keyword permission).Checked)
    (hd : (Piece.name db.text).Checked) (hu : (Piece.name user.text).Checked) :
    readGrant db
        ((Statement.grantDatabasePermission db permission user withOption).bodyPieces.flatMap
          Piece.chars) = some (.grantDatabasePermission db permission user withOption) := by
  simp only [Statement.bodyPieces, List.flatMap_cons, List.flatMap_nil, List.append_nil,
    Piece.chars_text, readGrant, dropLiteral_append, Option.bind_eq_bind, Option.bind_some]
  rw [readPermission_keyword hp]
  simp only [Option.bind_some]
  rw [readQuoted_name hd]
  simp only [Option.bind_some, dropLiteral_append]
  rw [readQuoted_name hu]
  cases withOption with
  | false =>
    simp only [Option.bind_some, Bool.false_eq_true, if_false, isLiteral_self, if_true]
  | true =>
    have hsemi : isLiteral ";" " WITH GRANT OPTION;".toList = false :=
      isLiteral_of_disagree (by decide) (by decide)
    simp only [Option.bind_some, if_true, hsemi, Bool.false_eq_true, if_false, isLiteral_self]

/-- A `REVOKE` statement whose parts rendering accepted reads back, with or without the grant
option. -/
theorem readRevoke_pieces {db : DatabaseName} {permission : String} {user : PrincipalName}
    (optionOnly : Bool) (hp : (Piece.keyword permission).Checked)
    (hd : (Piece.name db.text).Checked) (hu : (Piece.name user.text).Checked) :
    readRevoke db
        ((Statement.revokeDatabasePermission db permission user optionOnly).bodyPieces.flatMap
          Piece.chars) = some (.revokeDatabasePermission db permission user optionOnly) := by
  cases optionOnly with
  | false =>
    simp only [Statement.bodyPieces, Bool.false_eq_true, if_false, List.flatMap_cons,
      List.flatMap_nil, List.append_nil, Piece.chars_text, readRevoke, dropLiteral_append,
      Option.bind_eq_bind, Option.bind_some]
    rw [readPermission_keyword hp]
    simp only [Option.bind_some]
    rw [readQuoted_name hd]
    simp only [Option.bind_some, dropLiteral_append]
    rw [readQuoted_name hu]
    simp only [Option.bind_some, isLiteral_self, if_true]
  | true =>
    -- the words `GRANT OPTION FOR` are read as the start of the permission name
    have hwords : ∀ c ∈ "GRANT OPTION FOR ".toList, c = ' ' ∨ isAsciiUpper c = true := by
      simp [isAsciiUpper]
    have hp' : (Piece.keyword ("GRANT OPTION FOR " ++ permission)).Checked := by
      intro c hc
      rw [String.toList_append, List.mem_append] at hc
      exact hc.elim (hwords c) (hp c)
    have htext : ((Statement.revokeDatabasePermission db permission user true).bodyPieces.flatMap
        Piece.chars) = "REVOKE ".toList ++ ((Piece.keyword ("GRANT OPTION FOR " ++ permission)).chars ++
          (" ON DATABASE::".toList ++ ((Piece.name db.text).chars ++ (" FROM ".toList ++
            ((Piece.name user.text).chars ++ " CASCADE;".toList))))) := by
      simp [Statement.bodyPieces, Piece.chars]
    rw [htext]
    simp only [readRevoke, dropLiteral_append, Option.bind_eq_bind, Option.bind_some]
    rw [readPermission_keyword hp']
    simp only [Option.bind_some]
    rw [readQuoted_name hd]
    simp only [Option.bind_some, dropLiteral_append]
    rw [← List.append_nil " CASCADE;".toList, readQuoted_name hu]
    have hsemi : isLiteral ";" " CASCADE;".toList = false :=
      isLiteral_of_disagree (by decide) (by decide)
    simp only [Option.bind_some, List.append_nil, hsemi, Bool.false_eq_true, if_false,
      isLiteral_self, if_true, String.toList_append, dropLiteral_append, String.ofList_toList]

/-- A server role membership reads back. -/
theorem Statement.read_serverMembership (add : Bool) {role login : PrincipalName}
    (hr : (Piece.name role.text).Checked) (hl : (Piece.name login.text).Checked) :
    Statement.read
        ([.text "ALTER SERVER ROLE ", .name role.text,
          .text (if add then " ADD MEMBER " else " DROP MEMBER "), .name login.text,
          .text ";"].flatMap Piece.chars) =
      some (if add then .addServerRoleMember role login else .dropServerRoleMember role login) := by
  have huse : dropLiteral "USE ".toList
      (([.text "ALTER SERVER ROLE ", .name role.text,
        .text (if add then " ADD MEMBER " else " DROP MEMBER "), .name login.text,
        .text ";"] : List Piece).flatMap Piece.chars) = none := by
    rw [List.flatMap_cons, Piece.chars_text]
    exact dropLiteral_append_of_disagree (by decide) (by decide) _
  rw [Statement.read, huse]
  rw [readMembership_pieces add hr hl]
  cases add <;> rfl

/-- The `USE` prefix of a database statement reads back to its database. -/
theorem Statement.read_use {db : DatabaseName} (hdb : (Piece.name db.text).Checked)
    (body : List Piece) :
    Statement.read (([.text "USE ", .name db.text, .text "; "] ++ body : List Piece).flatMap
      Piece.chars) =
      readInDatabase db (body.flatMap Piece.chars) := by
  simp only [List.flatMap_append, List.flatMap_cons, List.flatMap_nil, List.append_nil,
    Piece.chars_text, List.append_assoc]
  rw [Statement.read, dropLiteral_append]
  simp only [Option.bind_eq_bind]
  rw [readQuoted_name hdb]
  simp only [Option.bind_some, dropLiteral_append]

/-- A `GRANT` statement reads back after its `USE` prefix: it opens neither a role membership
nor a `CREATE USER`. -/
theorem readInDatabase_grant {db : DatabaseName} {permission : String} {user : PrincipalName}
    (withOption : Bool) (hp : (Piece.keyword permission).Checked)
    (hd : (Piece.name db.text).Checked) (hu : (Piece.name user.text).Checked) :
    readInDatabase db
        ((Statement.grantDatabasePermission db permission user withOption).bodyPieces.flatMap
          Piece.chars) = some (.grantDatabasePermission db permission user withOption) := by
  have hrole : readMembership "ALTER ROLE " (fun add => if add then .addDatabaseRoleMember db
      else .dropDatabaseRoleMember db)
      ((Statement.grantDatabasePermission db permission user withOption).bodyPieces.flatMap
        Piece.chars) = none :=
    dropLiteral_pieces_of_disagree (by decide) (by decide) _ _
  have hcreate : readCreateUser db
      ((Statement.grantDatabasePermission db permission user withOption).bodyPieces.flatMap
        Piece.chars) = none :=
    dropLiteral_pieces_of_disagree (by decide) (by decide) _ _
  rw [readInDatabase, hrole, hcreate, readGrant_pieces withOption hp hd hu]
  rfl

/-- A `REVOKE` statement reads back after its `USE` prefix: it opens neither a role
membership, nor a `CREATE USER`, nor a `GRANT`. -/
theorem readInDatabase_revoke {db : DatabaseName} {permission : String} {user : PrincipalName}
    (optionOnly : Bool) (hp : (Piece.keyword permission).Checked)
    (hd : (Piece.name db.text).Checked) (hu : (Piece.name user.text).Checked) :
    readInDatabase db
        ((Statement.revokeDatabasePermission db permission user optionOnly).bodyPieces.flatMap
          Piece.chars) = some (.revokeDatabasePermission db permission user optionOnly) := by
  -- the two forms of a revoke open with different words, and neither with the others'
  have hrole : readMembership "ALTER ROLE " (fun add => if add then .addDatabaseRoleMember db
      else .dropDatabaseRoleMember db)
      ((Statement.revokeDatabasePermission db permission user optionOnly).bodyPieces.flatMap
        Piece.chars) = none := by
    cases optionOnly <;> exact dropLiteral_pieces_of_disagree (by decide) (by decide) _ _
  have hcreate : readCreateUser db
      ((Statement.revokeDatabasePermission db permission user optionOnly).bodyPieces.flatMap
        Piece.chars) = none := by
    cases optionOnly <;> exact dropLiteral_pieces_of_disagree (by decide) (by decide) _ _
  have hgrant : readGrant db
      ((Statement.revokeDatabasePermission db permission user optionOnly).bodyPieces.flatMap
        Piece.chars) = none := by
    cases optionOnly <;> exact dropLiteral_pieces_of_disagree (by decide) (by decide) _ _
  rw [readInDatabase, hrole, hcreate, hgrant, readRevoke_pieces optionOnly hp hd hu]
  rfl

/-- A statement that runs in a database reads back when its body does. -/
theorem Statement.read_of_database {s : Statement} {db : DatabaseName} (hdb : s.database? = some db)
    (hd : (Piece.name db.text).Checked)
    (hbody : readInDatabase db (s.bodyPieces.flatMap Piece.chars) = some s) :
    Statement.read (s.pieces.flatMap Piece.chars) = some s := by
  rw [Statement.pieces, hdb, Statement.read_use hd]
  exact hbody

/-- Every statement whose pieces rendering checked reads back from their text. -/
theorem Statement.read_pieces {s : Statement} (h : ∀ p ∈ s.pieces, p.Checked) :
    Statement.read (s.pieces.flatMap Piece.chars) = some s := by
  cases s with
  | addServerRoleMember role login =>
    simp only [Statement.pieces, Statement.database?, Statement.bodyPieces, List.forall_mem_cons,
      List.not_mem_nil, IsEmpty.forall_iff] at h
    obtain ⟨-, hr, -, hl, -⟩ := h
    exact Statement.read_serverMembership true hr hl
  | dropServerRoleMember role login =>
    simp only [Statement.pieces, Statement.database?, Statement.bodyPieces, List.forall_mem_cons,
      List.not_mem_nil, IsEmpty.forall_iff] at h
    obtain ⟨-, hr, -, hl, -⟩ := h
    exact Statement.read_serverMembership false hr hl
  | addDatabaseRoleMember db role user =>
    simp only [Statement.pieces, Statement.database?, Statement.bodyPieces, List.cons_append,
      List.nil_append, List.forall_mem_cons, List.not_mem_nil, IsEmpty.forall_iff] at h
    obtain ⟨-, hd, -, -, hr, -, hu, -⟩ := h
    refine Statement.read_of_database rfl hd ?_
    have hrole : readMembership "ALTER ROLE " (fun add => if add then .addDatabaseRoleMember db
        else .dropDatabaseRoleMember db)
        ((Statement.addDatabaseRoleMember db role user).bodyPieces.flatMap Piece.chars) =
        some (.addDatabaseRoleMember db role user) :=
      readMembership_pieces true hr hu
    rw [readInDatabase, hrole]
    rfl
  | dropDatabaseRoleMember db role user =>
    simp only [Statement.pieces, Statement.database?, Statement.bodyPieces, List.cons_append,
      List.nil_append, List.forall_mem_cons, List.not_mem_nil, IsEmpty.forall_iff] at h
    obtain ⟨-, hd, -, -, hr, -, hu, -⟩ := h
    refine Statement.read_of_database rfl hd ?_
    have hrole : readMembership "ALTER ROLE " (fun add => if add then .addDatabaseRoleMember db
        else .dropDatabaseRoleMember db)
        ((Statement.dropDatabaseRoleMember db role user).bodyPieces.flatMap Piece.chars) =
        some (.dropDatabaseRoleMember db role user) :=
      readMembership_pieces false hr hu
    rw [readInDatabase, hrole]
    rfl
  | createDatabaseUser db user login =>
    simp only [Statement.pieces, Statement.database?, Statement.bodyPieces, List.cons_append,
      List.nil_append, List.forall_mem_cons, List.not_mem_nil, IsEmpty.forall_iff] at h
    obtain ⟨-, hd, -, -, hu, -, hl, -⟩ := h
    refine Statement.read_of_database rfl hd ?_
    have hrole : readMembership "ALTER ROLE " (fun add => if add then .addDatabaseRoleMember db
        else .dropDatabaseRoleMember db)
        ((Statement.createDatabaseUser db user login).bodyPieces.flatMap Piece.chars) = none :=
      dropLiteral_pieces_of_disagree (by decide) (by decide) _ _
    rw [readInDatabase, hrole, readCreateUser_pieces db hu hl]
    rfl
  | grantDatabasePermission db permission user withOption =>
    simp only [Statement.pieces, Statement.database?, Statement.bodyPieces, List.cons_append,
      List.nil_append, List.forall_mem_cons, List.not_mem_nil, IsEmpty.forall_iff] at h
    obtain ⟨-, hd, -, -, hp, -, -, -, hu, -⟩ := h
    exact Statement.read_of_database rfl hd (readInDatabase_grant withOption hp hd hu)
  | revokeDatabasePermission db permission user optionOnly =>
    cases optionOnly <;>
    · simp only [Statement.pieces, Statement.database?, Statement.bodyPieces, Bool.false_eq_true,
        if_false, if_true, List.cons_append, List.nil_append, List.forall_mem_cons,
        List.not_mem_nil, IsEmpty.forall_iff] at h
      obtain ⟨-, hd, -, -, hp, -, -, -, hu, -⟩ := h
      exact Statement.read_of_database rfl hd (readInDatabase_revoke _ hp hd hu)

end Reading

/-! ## The structure of a rendered text -/

/-- The characters that delimit the parts of a statement: brackets and semicolons. -/
def isDelimiter (c : Char) : Bool := c == '[' || c == ']' || c == ';'

/-- The delimiters a piece contributes: its brackets for a name, none for a permission name,
and those of the template text. -/
def Piece.delimiters : Piece → List Char
  | .text s => s.toList.filter isDelimiter
  | .name _ => ['[', ']']
  | .keyword _ => []

/-- The brackets and semicolons of a statement's template, in order: `[];` for the `USE`
prefix, then the two quoted names of the body and its closing semicolon. -/
def Statement.delimiters (s : Statement) : List Char :=
  (if s.database?.isSome then ['[', ']', ';'] else []) ++ ['[', ']', '[', ']', ';']

/-- A piece that rendering checked adds exactly its own delimiters. -/
theorem Piece.filter_chars {p : Piece} (h : p.Checked) :
    p.chars.filter isDelimiter = p.delimiters := by
  cases p with
  | text s => rfl
  | name s =>
    have hnone : s.toList.filter isDelimiter = [] := by
      refine List.filter_eq_nil_iff.mpr fun c hc => ?_
      have := h c hc
      simp only [forbiddenInIdentifier, Bool.or_eq_false_iff] at this
      simp [isDelimiter, this]
    simp [Piece.chars, Piece.delimiters, List.filter_append, hnone, isDelimiter]
  | keyword s =>
    refine List.filter_eq_nil_iff.mpr fun c hc => ?_
    rcases h c hc with rfl | hu
    · decide
    · simp only [isAsciiUpper, Bool.and_eq_true, decide_eq_true_eq] at hu
      have hb : c ≠ '[' := fun e => by subst e; exact absurd hu.2 (by decide)
      have hc' : c ≠ ']' := fun e => by subst e; exact absurd hu.2 (by decide)
      have hs : c ≠ ';' := fun e => by subst e; exact absurd hu.1 (by decide)
      simp [isDelimiter, hb, hc', hs]

/-- The pieces of every statement carry the delimiters of its template. -/
theorem Statement.pieces_delimiters (s : Statement) :
    s.pieces.flatMap Piece.delimiters = s.delimiters := by
  cases s with
  | grantDatabasePermission db permission user withOption =>
    cases withOption <;> rfl
  | revokeDatabasePermission db permission user optionOnly =>
    cases optionOnly <;> rfl
  | _ => rfl

/-- A rendered text has exactly the brackets and semicolons of its statement's template. -/
theorem Statement.render_delimiters {s : Statement} {t : String} (h : s.render = .ok t) :
    t.toList.filter isDelimiter = s.delimiters := by
  obtain ⟨checked, htext⟩ := Statement.render_eq_ok h
  rw [htext, List.filter_flatMap, ← Statement.pieces_delimiters]
  exact List.flatMap_congr fun p hp => Piece.filter_chars (checked p hp)

/-- Rendering is injective: the text determines the statement. -/
theorem Statement.render_injective {s₁ s₂ : Statement} {t : String} (h₁ : s₁.render = .ok t)
    (h₂ : s₂.render = .ok t) : s₁ = s₂ := by
  obtain ⟨checked₁, htext₁⟩ := Statement.render_eq_ok h₁
  obtain ⟨checked₂, htext₂⟩ := Statement.render_eq_ok h₂
  have hread₁ := Statement.read_pieces checked₁
  have hread₂ := Statement.read_pieces checked₂
  rw [← htext₁] at hread₁
  rw [← htext₂] at hread₂
  exact Option.some_injective _ (hread₁.symm.trans hread₂)

/-- Rendered statements admit no injection: two statements built from any names and
permission names that render to the same text are the same statement, and a rendered text
holds exactly the brackets and semicolons of its template, so one `;` for each T-SQL
statement: two after a `USE [<database>]; ` prefix, one otherwise. -/
theorem Statement.render_unambiguous {s₁ s₂ : Statement} {t : String} (h₁ : s₁.render = .ok t)
    (h₂ : s₂.render = .ok t) :
    s₁ = s₂ ∧ t.toList.filter isDelimiter = s₁.delimiters ∧
      t.toList.count ';' = if s₁.database?.isSome then 2 else 1 := by
  have hdelims := Statement.render_delimiters h₁
  refine ⟨Statement.render_injective h₁ h₂, hdelims, ?_⟩
  rw [← List.count_filter (by decide : isDelimiter ';' = true), hdelims, Statement.delimiters]
  cases s₁.database?.isSome <;> decide

/-- Revoking a permission whose name mimics the template, `GRANT OPTION FOR SELECT`, renders
without the closing `CASCADE` of revoking the grant option of `SELECT`. -/
theorem Statement.render_unambiguous_mimic :
    let s := Statement.revokeDatabasePermission ⟨"sales"⟩ "GRANT OPTION FOR SELECT" ⟨"alice"⟩ false
    let t := "USE [sales]; REVOKE GRANT OPTION FOR SELECT ON DATABASE::[sales] FROM [alice];"
    s.render = .ok t ∧ (s = s ∧ t.toList.filter isDelimiter = s.delimiters ∧
      t.toList.count ';' = if s.database?.isSome then 2 else 1) :=
  ⟨by decide, Statement.render_unambiguous (by decide) (by decide)⟩

end AccessReview
