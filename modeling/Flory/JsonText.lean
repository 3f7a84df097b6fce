import Mathlib.Data.Int.Notation
import Mathlib.Data.List.Basic

/-!
# JSON Texts

JSON documents as trees, and their texts as sequences of 16-bit code units. `render` writes a
tree without any space and with the fewest escapes, `renderWith` with the escapes a writer
chooses; `parse` reads any JSON text. Numbers are kept
as the literals they are written as.

A tree is generic in its strings and numbers, and functions on trees are folds: an `Algebra`
says what becomes of each kind of node, given what became of the nodes below it.

## Main results

* `Tree.inductionOn`: induction on trees.
* `parse_renderWith`: a tree whose numbers are integer literals is read back from its text,
  whatever is escaped, when each escape is read back.
* `showInteger_literalValue`: an integer is written as the literal it was read from, minus zero
  apart.
-/

namespace JsonText

variable {rest : List ℕ}

/-! ### Trees -/

/-- A JSON document with strings `σ` and numbers `ν`. -/
inductive Tree (σ ν : Type) where
  | null
  | bool (value : Bool)
  | number (value : ν)
  | string (value : σ)
  | array (items : List (Tree σ ν))
  | object (entries : List (σ × Tree σ ν))

/-- What becomes of each kind of node. -/
structure Algebra (σ ν β : Type) where
  null : β
  bool : Bool → β
  number : ν → β
  string : σ → β
  array : List β → β
  object : List (σ × β) → β

namespace Tree

variable {σ ν β : Type}

mutual

/-- The value of a tree under an algebra. -/
def fold (alg : Algebra σ ν β) : Tree σ ν → β
  | .null => alg.null
  | .bool value => alg.bool value
  | .number value => alg.number value
  | .string value => alg.string value
  | .array items => alg.array (foldItems alg items)
  | .object entries => alg.object (foldEntries alg entries)

/-- The values of the items of an array. -/
def foldItems (alg : Algebra σ ν β) : List (Tree σ ν) → List β
  | [] => []
  | item :: rest => fold alg item :: foldItems alg rest

/-- The values of the entries of an object. -/
def foldEntries (alg : Algebra σ ν β) : List (σ × Tree σ ν) → List (σ × β)
  | [] => []
  | (key, member) :: rest => (key, fold alg member) :: foldEntries alg rest

end

/-- The fold of an array. -/
theorem fold_array (alg : Algebra σ ν β) (items : List (Tree σ ν)) :
    fold alg (.array items) = alg.array (items.map (fold alg)) := by
  have hitems : foldItems alg items = items.map (fold alg) := by
    induction items with
    | nil => rfl
    | cons item rest ih => rw [foldItems, ih, List.map_cons]
  rw [fold, hitems]

/-- The fold of an object. -/
theorem fold_object (alg : Algebra σ ν β) (entries : List (σ × Tree σ ν)) :
    fold alg (.object entries) =
      alg.object (entries.map fun entry => (entry.1, fold alg entry.2)) := by
  have hent : foldEntries alg entries = entries.map fun entry => (entry.1, fold alg entry.2) := by
    induction entries with
    | nil => rfl
    | cons entry rest ih => rw [foldEntries, ih, List.map_cons]
  rw [fold, hent]

/-- **Induction on trees**: a property of every tree follows from that of the trees below. -/
@[elab_as_elim]
theorem inductionOn {P : Tree σ ν → Prop} (null : P .null) (bool : ∀ value, P (.bool value))
    (number : ∀ value, P (.number value)) (string : ∀ value, P (.string value))
    (array : ∀ items, (∀ item ∈ items, P item) → P (.array items))
    (object : ∀ entries, (∀ entry ∈ entries, P entry.2) → P (.object entries))
    (tree : Tree σ ν) : P tree :=
  @Tree.rec σ ν P (fun items => ∀ item ∈ items, P item)
    (fun entries => ∀ entry ∈ entries, P entry.2) (fun entry => P entry.2)
    null bool number string (fun items => array items) (fun entries => object entries)
    (List.forall_mem_nil _) (fun _ _ hhead hrest => List.forall_mem_cons.mpr ⟨hhead, hrest⟩)
    (List.forall_mem_nil _) (fun _ _ hhead hrest => List.forall_mem_cons.mpr ⟨hhead, hrest⟩)
    (fun _ _ hmem => hmem) tree

end Tree

/-! ### Writing -/

/-- A text of the basic alphabet as units. -/
def ascii (text : String) : List ℕ :=
  text.toList.map Char.toNat

/-- The letter that stands for a unit after a backslash. -/
def shortEscape : ℕ → Option ℕ
  | 0x22 => some 0x22
  | 0x5C => some 0x5C
  | 0x08 => some 0x62
  | 0x0C => some 0x66
  | 0x0A => some 0x6E
  | 0x0D => some 0x72
  | 0x09 => some 0x74
  | _ => none

/-- A hexadecimal digit, in lower case. -/
def hexDigit (n : ℕ) : ℕ :=
  if n < 10 then 0x30 + n else 0x57 + n

/-- A unit of a string, escaped when it has to be. -/
def escape (unit : ℕ) : List ℕ :=
  match shortEscape unit with
  | some letter => [0x5C, letter]
  | none =>
    if unit < 0x20 then [0x5C, 0x75, 0x30, 0x30, hexDigit (unit / 16), hexDigit (unit % 16)]
    else [unit]

/-- A string between its quotes. -/
def renderString (units : List ℕ) : List ℕ :=
  0x22 :: units.flatMap escape ++ [0x22]

/-- The members of an array or object, with commas between them. -/
def separated : List (List ℕ) → List ℕ
  | [] => []
  | [part] => part
  | part :: next :: rest => part ++ 0x2C :: separated (next :: rest)

/-- The text of a tree, without spaces. -/
def render : Tree (List ℕ) (List ℕ) → List ℕ :=
  Tree.fold
    { null := ascii "null"
      bool := fun value => if value then ascii "true" else ascii "false"
      number := fun literal => literal
      string := renderString
      array := fun items => 0x5B :: separated items ++ [0x5D]
      object := fun entries =>
        0x7B :: separated (entries.map fun entry => renderString entry.1 ++ 0x3A :: entry.2) ++
          [0x7D] }

/-- A string between its quotes, its units escaped by `esc`. -/
def renderStringWith (esc : ℕ → List ℕ) (units : List ℕ) : List ℕ :=
  0x22 :: units.flatMap esc ++ [0x22]

/-- The text of a tree, its strings escaped by `esc`: writers differ in what they escape. -/
def renderWith (esc : ℕ → List ℕ) : Tree (List ℕ) (List ℕ) → List ℕ :=
  Tree.fold
    { null := ascii "null"
      bool := fun value => if value then ascii "true" else ascii "false"
      number := fun literal => literal
      string := renderStringWith esc
      array := fun items => 0x5B :: separated items ++ [0x5D]
      object := fun entries =>
        0x7B :: separated (entries.map fun entry => renderStringWith esc entry.1 ++ 0x3A :: entry.2)
          ++ [0x7D] }

theorem renderWith_escape : renderWith escape = render :=
  rfl

/-! ### Reading -/

/-- The units JSON takes for space. -/
def isSpace (unit : ℕ) : Bool :=
  unit = 0x20 || unit = 0x09 || unit = 0x0A || unit = 0x0D

/-- What is left after the space. -/
def skipSpace (input : List ℕ) : List ℕ :=
  input.dropWhile isSpace

/-- A decimal digit. -/
def isDigit (unit : ℕ) : Bool :=
  0x30 ≤ unit && unit ≤ 0x39

theorem isDigit_iff : isDigit unit = true ↔ 0x30 ≤ unit ∧ unit ≤ 0x39 := by
  simp [isDigit]

/-- The unit a letter stands for after a backslash. -/
def unescape : ℕ → Option ℕ
  | 0x22 => some 0x22
  | 0x5C => some 0x5C
  | 0x2F => some 0x2F
  | 0x62 => some 0x08
  | 0x66 => some 0x0C
  | 0x6E => some 0x0A
  | 0x72 => some 0x0D
  | 0x74 => some 0x09
  | _ => none

/-- The value of a hexadecimal digit of either case. -/
def hexValue (unit : ℕ) : Option ℕ :=
  if isDigit unit then some (unit - 0x30)
  else if 0x41 ≤ unit && unit ≤ 0x46 then some (unit - 0x37)
  else if 0x61 ≤ unit && unit ≤ 0x66 then some (unit - 0x57)
  else none

/-- The unit four hexadecimal digits stand for. -/
def hexUnit (a b c d : ℕ) : Option ℕ := do
  some ((((← hexValue a) * 16 + (← hexValue b)) * 16 + (← hexValue c)) * 16 + (← hexValue d))

/-- Reads a string after its opening quote: its units, and what follows the closing one. -/
def parseChars : List ℕ → Option (List ℕ × List ℕ)
  | [] => none
  | 0x22 :: rest => some ([], rest)
  | 0x5C :: 0x75 :: a :: b :: c :: d :: rest => do
      let unit ← hexUnit a b c d
      let (units, rest) ← parseChars rest
      some (unit :: units, rest)
  | 0x5C :: letter :: rest => do
      let unit ← unescape letter
      let (units, rest) ← parseChars rest
      some (unit :: units, rest)
  | unit :: rest =>
    if unit < 0x20 || unit = 0x5C then none
    else do
      let (units, rest) ← parseChars rest
      some (unit :: units, rest)

/-- Reads an exponent, if there is one, after a literal read so far. -/
def parseExponent (literal : List ℕ) : List ℕ → Option (List ℕ × List ℕ)
  | [] => some (literal, [])
  | unit :: rest =>
    if unit = 0x65 || unit = 0x45 then
      let signed := rest.takeWhile (fun sign => sign = 0x2B || sign = 0x2D)
      let digits := (rest.drop signed.length).takeWhile isDigit
      if signed.length ≤ 1 && !digits.isEmpty then
        some (literal ++ unit :: signed ++ digits, rest.drop (signed.length + digits.length))
      else none
    else some (literal, unit :: rest)

/-- Reads a fraction and an exponent, if there are any, after the integer part of a literal. -/
def parseFraction (literal : List ℕ) : List ℕ → Option (List ℕ × List ℕ)
  | 0x2E :: rest =>
    let digits := rest.takeWhile isDigit
    if digits.isEmpty then none
    else parseExponent (literal ++ 0x2E :: digits) (rest.dropWhile isDigit)
  | rest => parseExponent literal rest

/-- Reads the digits of a number: a zero, or digits that do not begin with one. -/
def parseUnsigned (sign : List ℕ) : List ℕ → Option (List ℕ × List ℕ)
  | [] => none
  | digit :: rest =>
    if digit = 0x30 then parseFraction (sign ++ [0x30]) rest
    else if isDigit digit then
      parseFraction (sign ++ digit :: rest.takeWhile isDigit) (rest.dropWhile isDigit)
    else none

/-- Reads a number literal. -/
def parseNumber : List ℕ → Option (List ℕ × List ℕ)
  | 0x2D :: rest => parseUnsigned [0x2D] rest
  | rest => parseUnsigned [] rest

mutual

/-- Reads a value, and what follows it. -/
def parseValue : ℕ → List ℕ → Option (Tree (List ℕ) (List ℕ) × List ℕ)
  | 0, _ => none
  | fuel + 1, input =>
    match skipSpace input with
    | 0x22 :: rest => (parseChars rest).map fun (units, rest) => (.string units, rest)
    | 0x5B :: rest =>
      match skipSpace rest with
      | 0x5D :: rest => some (.array [], rest)
      | rest => (parseItems fuel rest).map fun (items, rest) => (.array items, rest)
    | 0x7B :: rest =>
      match skipSpace rest with
      | 0x7D :: rest => some (.object [], rest)
      | rest => (parseMembers fuel rest).map fun (entries, rest) => (.object entries, rest)
    | 0x6E :: 0x75 :: 0x6C :: 0x6C :: rest => some (.null, rest)
    | 0x74 :: 0x72 :: 0x75 :: 0x65 :: rest => some (.bool true, rest)
    | 0x66 :: 0x61 :: 0x6C :: 0x73 :: 0x65 :: rest => some (.bool false, rest)
    | rest => (parseNumber rest).map fun (literal, rest) => (.number literal, rest)

/-- Reads the items of an array up to its bracket. -/
def parseItems : ℕ → List ℕ → Option (List (Tree (List ℕ) (List ℕ)) × List ℕ)
  | 0, _ => none
  | fuel + 1, input => do
      let (item, rest) ← parseValue fuel input
      match skipSpace rest with
      | 0x5D :: rest => some ([item], rest)
      | 0x2C :: rest =>
        let (items, rest) ← parseItems fuel rest
        some (item :: items, rest)
      | _ => none

/-- Reads the members of an object up to its brace. -/
def parseMembers : ℕ → List ℕ → Option (List (List ℕ × Tree (List ℕ) (List ℕ)) × List ℕ)
  | 0, _ => none
  | fuel + 1, input =>
    match skipSpace input with
    | 0x22 :: rest => do
        let (key, rest) ← parseChars rest
        match skipSpace rest with
        | 0x3A :: rest =>
          let (member, rest) ← parseValue fuel rest
          match skipSpace rest with
          | 0x7D :: rest => some ([(key, member)], rest)
          | 0x2C :: rest =>
            let (entries, rest) ← parseMembers fuel rest
            some ((key, member) :: entries, rest)
          | _ => none
        | _ => none
    | _ => none

end

/-- **Reading a JSON text**: one value, with nothing but space around it. Every value and member
takes up a unit of the text, so that its length bounds the depth of the reading. -/
def parse (input : List ℕ) : Option (Tree (List ℕ) (List ℕ)) :=
  match parseValue (input.length + 1) input with
  | some (tree, rest) => if (skipSpace rest).isEmpty then some tree else none
  | none => none

/-! ### What is written is read back -/

theorem unescape_shortEscape {letter : ℕ} (h : shortEscape unit = some letter) :
    unescape letter = some unit ∧ letter ≠ 0x75 := by
  unfold shortEscape at h
  split at h <;> cases h <;> exact ⟨rfl, by decide⟩

theorem hexValue_hexDigit : ∀ n < 16, hexValue (hexDigit n) = some n := by
  decide

/-- A unit is read back from its escape, whatever follows. -/
theorem parseChars_escape (unit : ℕ) (rest : List ℕ) :
    parseChars (escape unit ++ rest) =
      (parseChars rest).map fun (units, rest) => (unit :: units, rest) := by
  unfold escape
  cases hshort : shortEscape unit with
  | some =>
    obtain ⟨hunes, hlet⟩ := unescape_shortEscape hshort
    simp only [List.cons_append, List.nil_append]
    rw [parseChars]
    · rw [hunes]
      cases parseChars rest <;> rfl
    · intro _ _ _ _ _ hhex _
      exact hlet hhex
  | none =>
    dsimp only
    split
    · rename_i hcon
      simp only [List.cons_append, List.nil_append, parseChars]
      have hunit : hexUnit 0x30 0x30 (hexDigit (unit / 16)) (hexDigit (unit % 16)) = some unit := by
        have hhigh := hexValue_hexDigit (unit / 16) (by omega)
        have hlow := hexValue_hexDigit (unit % 16) (by omega)
        have hzero : hexValue 0x30 = some 0 := by decide
        simp only [hexUnit, hzero, hhigh, hlow]
        exact congrArg some (by omega)
      rw [hunit]
      cases parseChars rest <;> rfl
    · rename_i hplain
      have hquote : unit ≠ 0x22 := by
        rintro rfl
        cases hshort
      have hbac : unit ≠ 0x5C := by
        rintro rfl
        cases hshort
      rw [List.singleton_append, parseChars]
      · have hcond : (decide (unit < 0x20) || decide (unit = 0x5C)) = false := by
          simp [hbac, hplain]
        rw [hcond]
        cases parseChars rest <;> rfl
      all_goals simp_all

/-- An escape from which a unit is read back, whatever follows. -/
def ReadsBack (esc : ℕ → List ℕ) : Prop :=
  ∀ unit rest, parseChars (esc unit ++ rest) =
    (parseChars rest).map fun (units, rest) => (unit :: units, rest)

theorem readsBack_escape : ReadsBack escape :=
  parseChars_escape

/-- **A string is read back** up to its closing quote. -/
theorem parseChars_renderWith {esc : ℕ → List ℕ} (hesc : ReadsBack esc) (units rest : List ℕ) :
    parseChars (units.flatMap esc ++ 0x22 :: rest) = some (units, rest) := by
  induction units with
  | nil => rfl
  | cons unit units ih => rw [List.flatMap_cons, List.append_assoc, hesc, ih]; rfl

/-- The integer literals of JSON, without the sign: a zero, or digits that do not begin with
one. -/
def isUnsignedLiteral : List ℕ → Bool
  | [] => false
  | digit :: rest => if digit = 0x30 then rest.isEmpty else isDigit digit && rest.all isDigit

/-- The integer literals of JSON. -/
def isIntegerLiteral : List ℕ → Bool
  | 0x2D :: rest => isUnsignedLiteral rest
  | rest => isUnsignedLiteral rest

/-- What can stand after a value: the end, or a unit that closes or separates. -/
def Delimited (rest : List ℕ) : Prop :=
  ∀ unit ∈ rest.head?, unit = 0x2C ∨ unit = 0x5D ∨ unit = 0x7D

/-- No fraction or exponent begins where a value ends. -/
theorem parseFraction_delimited (h : Delimited rest) (literal : List ℕ) :
    parseFraction literal rest = some (literal, rest) := by
  cases rest with
  | nil => rfl
  | cons unit =>
    have hunit := h unit rfl
    rcases hunit with rfl | rfl | rfl <;> rfl

/-- No digit stands where a value ends. -/
theorem span_delimited (hdig : digits.all isDigit = true) (h : Delimited rest) :
    (digits ++ rest).takeWhile isDigit = digits ∧ (digits ++ rest).dropWhile isDigit = rest := by
  have hrest : rest.takeWhile isDigit = [] ∧ rest.dropWhile isDigit = rest := by
    cases rest with
    | nil => exact ⟨rfl, rfl⟩
    | cons unit =>
      have hunit := h unit rfl
      rcases hunit with rfl | rfl | rfl <;> exact ⟨rfl, rfl⟩
  have hall := List.all_eq_true.mp hdig
  rw [List.takeWhile_append_of_pos hall, List.dropWhile_append_of_pos hall, hrest.1, hrest.2]
  exact ⟨List.append_nil digits, rfl⟩

/-- The digits of an integer literal are read back. -/
theorem parseUnsigned_append {sign : List ℕ} (hdig : isUnsignedLiteral digits = true)
    (h : Delimited rest) : parseUnsigned sign (digits ++ rest) = some (sign ++ digits, rest) := by
  cases digits with
  | nil => cases hdig
  | cons digit more =>
    simp only [isUnsignedLiteral] at hdig
    rw [List.cons_append, parseUnsigned]
    split at hdig
    · rename_i hzero
      obtain rfl : more = [] := List.isEmpty_iff.mp hdig
      rw [if_pos hzero, List.nil_append, parseFraction_delimited h, hzero]
    rename_i hzero
    obtain ⟨hdigit, hmore⟩ := Bool.and_eq_true_iff.mp hdig
    obtain ⟨htake, hdrop⟩ := span_delimited hmore h
    rw [if_neg hzero, if_pos hdigit, htake, hdrop, parseFraction_delimited h]

/-- **An integer literal is read back** where a value ends. -/
theorem parseNumber_append (hlit : isIntegerLiteral literal = true) (h : Delimited rest) :
    parseNumber (literal ++ rest) = some (literal, rest) := by
  unfold isIntegerLiteral at hlit
  split at hlit
  · exact parseUnsigned_append hlit h
  rename_i hsign
  cases literal with
  | nil => cases hlit
  | cons digit more =>
    rw [List.cons_append, parseNumber]
    · exact parseUnsigned_append hlit h
    · intro rest' hspl
      exact hsign more (by rw [(List.cons.inj hspl).1])

/-- An integer literal begins with a sign or a digit. -/
theorem head_of_isIntegerLiteral (h : isIntegerLiteral literal = true) :
    ∃ unit rest, literal = unit :: rest ∧ (unit = 0x2D ∨ isDigit unit = true) := by
  unfold isIntegerLiteral at h
  split at h
  · rename_i rest
    exact ⟨0x2D, rest, rfl, .inl rfl⟩
  cases literal with
  | nil => cases h
  | cons digit rest =>
    refine ⟨digit, rest, rfl, .inr ?_⟩
    simp only [isUnsignedLiteral] at h
    split at h
    · rename_i hzero
      rw [hzero]
      rfl
    · exact (Bool.and_eq_true_iff.mp h).1

/-- The trees all of whose numbers are integer literals. -/
def Integral : Tree (List ℕ) (List ℕ) → Prop :=
  Tree.fold
    { null := True
      bool := fun _ => True
      number := fun literal => isIntegerLiteral literal = true
      string := fun _ => True
      array := fun items => ∀ item ∈ items, item
      object := fun entries => ∀ entry ∈ entries, entry.2 }

theorem integral_array {items : List (Tree (List ℕ) (List ℕ))} :
    Integral (.array items) ↔ ∀ item ∈ items, Integral item := by
  rw [Integral, Tree.fold_array]
  exact List.forall_mem_map

theorem integral_object {entries : List (List ℕ × Tree (List ℕ) (List ℕ))} :
    Integral (.object entries) ↔ ∀ entry ∈ entries, Integral entry.2 := by
  rw [Integral, Tree.fold_object]
  exact List.forall_mem_map

theorem render_array (items : List (Tree (List ℕ) (List ℕ))) :
    render (.array items) = 0x5B :: separated (items.map render) ++ [0x5D] :=
  Tree.fold_array _ items

/-- The text of one member of an object. -/
def renderMember (entry : List ℕ × Tree (List ℕ) (List ℕ)) : List ℕ :=
  renderString entry.1 ++ 0x3A :: render entry.2

theorem render_object (entries : List (List ℕ × Tree (List ℕ) (List ℕ))) :
    render (.object entries) = 0x7B :: separated (entries.map renderMember) ++ [0x7D] := by
  rw [render, Tree.fold_object]
  simp only [List.map_map]
  rfl

variable {tree : Tree (List ℕ) (List ℕ)}

section RenderWith

variable {esc : ℕ → List ℕ}

theorem renderWith_array (items : List (Tree (List ℕ) (List ℕ))) :
    renderWith esc (.array items) = 0x5B :: separated (items.map (renderWith esc)) ++ [0x5D] :=
  Tree.fold_array _ items

/-- The text of one member of an object, with a given escape. -/
def renderMemberWith (esc : ℕ → List ℕ) (entry : List ℕ × Tree (List ℕ) (List ℕ)) : List ℕ :=
  renderStringWith esc entry.1 ++ 0x3A :: renderWith esc entry.2

/-- The text of an object, with a given escape. -/
theorem renderWith_object (entries : List (List ℕ × Tree (List ℕ) (List ℕ))) :
    renderWith esc (.object entries) =
      0x7B :: separated (entries.map (renderMemberWith esc)) ++ [0x7D] := by
  rw [renderWith, Tree.fold_object]
  simp only [List.map_map]
  rfl

variable (esc) in
/-- A value begins with a unit that is no space and closes no array. -/
theorem head_of_renderWith (h : Integral tree) :
    ∃ unit rest, renderWith esc tree = unit :: rest ∧ isSpace unit = false ∧ unit ≠ 0x5D := by
  cases tree with
  | null => exact ⟨0x6E, ascii "ull", rfl, rfl, by decide⟩
  | bool value =>
    cases value
    · exact ⟨0x66, ascii "alse", rfl, rfl, by decide⟩
    · exact ⟨0x74, ascii "rue", rfl, rfl, by decide⟩
  | number =>
    obtain ⟨unit, rest, rfl, hunit⟩ := head_of_isIntegerLiteral h
    refine ⟨unit, rest, rfl, ?_⟩
    rw [isDigit_iff] at hunit
    simp only [isSpace, Bool.or_eq_false_iff, decide_eq_false_iff_not]
    omega
  | string units => exact ⟨0x22, units.flatMap esc ++ [0x22], rfl, rfl, by decide⟩
  | array items => exact ⟨0x5B, _, renderWith_array items, rfl, by decide⟩
  | object entries => exact ⟨0x7B, _, renderWith_object entries, rfl, by decide⟩

theorem skipSpace_cons (h : isSpace unit = false) (rest : List ℕ) :
    skipSpace (unit :: rest) = unit :: rest := by
  simp [skipSpace, h]

/-- Where no other value begins, a number does. -/
theorem parseValue_number (h : unit = 0x2D ∨ isDigit unit = true) (fuel : ℕ) (rest : List ℕ) :
    parseValue (fuel + 1) (unit :: rest) =
      (parseNumber (unit :: rest)).map fun (literal, rest) => (.number literal, rest) := by
  rw [isDigit_iff] at h
  have hspace : isSpace unit = false := by
    simp only [isSpace, Bool.or_eq_false_iff, decide_eq_false_iff_not]
    omega
  rw [parseValue, skipSpace_cons hspace]
  split
  case h_7 => rfl
  all_goals
    rename_i hspl
    have hunit := (List.cons.inj hspl).1
    omega

/-- Reading an array, after its opening bracket. -/
theorem parseValue_array (fuel : ℕ) (rest : List ℕ) : parseValue (fuel + 1) (0x5B :: rest) =
    match skipSpace rest with
    | 0x5D :: rest => some (.array [], rest)
    | rest => (parseItems fuel rest).map fun (items, rest) => (.array items, rest) := by
  rw [parseValue, skipSpace_cons rfl]
  rfl

/-- Reading an object, after its opening brace. -/
theorem parseValue_object (fuel : ℕ) (rest : List ℕ) : parseValue (fuel + 1) (0x7B :: rest) =
    match skipSpace rest with
    | 0x7D :: rest => some (.object [], rest)
    | rest => (parseMembers fuel rest).map fun (entries, rest) => (.object entries, rest) := by
  rw [parseValue, skipSpace_cons rfl]
  rfl

/-- What a reader of one value does on the text of a tree. -/
def ReadBack (esc : ℕ → List ℕ) (tree : Tree (List ℕ) (List ℕ)) : Prop :=
  ∀ fuel rest, (renderWith esc tree).length ≤ fuel → Delimited rest →
    parseValue fuel (renderWith esc tree ++ rest) = some (tree, rest)

theorem ReadBack.length_pos (h : ReadBack esc tree) : 0 < (renderWith esc tree).length := by
  by_contra hzero
  have hread := h 0 [] (by omega) (by simp [Delimited])
  simp [parseValue] at hread

/-- The items of an array are read back, one after the other. -/
theorem parseItems_renderWith {items : List (Tree (List ℕ) (List ℕ))} (hne : items ≠ [])
    (hread : ∀ item ∈ items, ReadBack esc item)
    (fuel : ℕ) (rest : List ℕ) (hfuel : (separated (items.map (renderWith esc))).length < fuel) :
    parseItems fuel (separated (items.map (renderWith esc)) ++ 0x5D :: rest) =
      some (items, rest) := by
  induction items generalizing fuel with
  | nil => exact absurd rfl hne
  | cons item items ih =>
    obtain ⟨fuel, rfl⟩ : ∃ less, fuel = less + 1 := Nat.exists_eq_add_one.mpr (by omega)
    have hitem := hread item List.mem_cons_self
    cases items with
    | nil =>
      simp only [List.map_cons, List.map_nil, separated] at hfuel ⊢
      have hval := hitem fuel (0x5D :: rest) (by omega) (by simp [Delimited])
      rw [parseItems, hval]
      rfl
    | cons next more =>
      simp only [List.map_cons, separated, List.length_append, List.length_cons] at hfuel
      have hpos := hitem.length_pos
      have hval := hitem fuel
        (0x2C :: (separated ((next :: more).map (renderWith esc)) ++ 0x5D :: rest)) (by omega)
        (by simp [Delimited])
      have hrest := ih (by simp) (fun other hoth => hread other (List.mem_cons_of_mem _ hoth)) fuel
        (by simp only [List.map_cons]; omega)
      simp only [List.map_cons, separated, List.append_assoc, List.cons_append] at hval hrest ⊢
      rw [parseItems, hval]
      change (parseItems fuel
        (separated (renderWith esc next :: more.map (renderWith esc)) ++ 0x5D :: rest)).bind
        (fun read => some (item :: read.1, read.2)) = _
      rw [hrest]
      rfl

/-- The key of a member is read back, up to its colon. -/
theorem parseMembers_key (hesc : ReadsBack esc) (fuel : ℕ) (key rest : List ℕ) :
    parseMembers (fuel + 1) (renderStringWith esc key ++ 0x3A :: rest) =
      (parseValue fuel rest).bind fun read =>
        match skipSpace read.2 with
        | 0x7D :: rest => some ([(key, read.1)], rest)
        | 0x2C :: rest =>
          (parseMembers fuel rest).bind fun more => some ((key, read.1) :: more.1, more.2)
        | _ => none := by
  have hquot : renderStringWith esc key ++ 0x3A :: rest =
      0x22 :: (key.flatMap esc ++ 0x22 :: 0x3A :: rest) := by
    simp [renderStringWith]
  rw [hquot, parseMembers, skipSpace_cons rfl]
  simp only [parseChars_renderWith hesc, Option.bind_eq_bind, Option.bind_some]
  rfl

/-- The members of an object are read back, one after the other. -/
theorem parseMembers_renderWith (hesc : ReadsBack esc)
    {entries : List (List ℕ × Tree (List ℕ) (List ℕ))} (hne : entries ≠ [])
    (hread : ∀ entry ∈ entries, ReadBack esc entry.2) (fuel : ℕ) (rest : List ℕ)
    (hfuel : (separated (entries.map (renderMemberWith esc))).length < fuel) :
    parseMembers fuel (separated (entries.map (renderMemberWith esc)) ++ 0x7D :: rest) =
      some (entries, rest) := by
  induction entries generalizing fuel with
  | nil => exact absurd rfl hne
  | cons entry entries ih =>
    obtain ⟨key, member⟩ := entry
    obtain ⟨fuel, rfl⟩ : ∃ less, fuel = less + 1 := Nat.exists_eq_add_one.mpr (by omega)
    have hmem : ReadBack esc member := hread (key, member) List.mem_cons_self
    cases entries with
    | nil =>
      simp only [List.map_cons, List.map_nil, separated, renderMemberWith, List.length_append,
        List.length_cons] at hfuel
      have hval := hmem fuel (0x7D :: rest) (by omega) (by simp [Delimited])
      simp only [List.map_cons, List.map_nil, separated, renderMemberWith, List.append_assoc,
        List.cons_append]
      rw [parseMembers_key hesc, hval]
      rfl
    | cons next more =>
      simp only [List.map_cons, separated, List.length_append, List.length_cons] at hfuel
      have hlen : (renderMemberWith esc (key, member)).length =
          (renderStringWith esc key).length + (renderWith esc member).length + 1 := by
        simp [renderMemberWith]
        omega
      have hval := hmem fuel
        (0x2C :: (separated ((next :: more).map (renderMemberWith esc)) ++ 0x7D :: rest))
        (by omega) (by simp [Delimited])
      have hrest := ih (by simp) (fun other hoth => hread other (List.mem_cons_of_mem _ hoth))
        fuel (by simp only [List.map_cons]; omega)
      simp only [List.map_cons, separated, List.append_assoc, List.cons_append,
        renderMemberWith] at hval hrest ⊢
      rw [parseMembers_key hesc, hval]
      simp only [Option.bind_some, skipSpace_cons (show isSpace 0x2C = false from rfl), hrest]

/-- A text is not empty, so it is read with some fuel. -/
theorem ReadBack.of_succ (h : Integral tree)
    (hread : ∀ fuel rest, (renderWith esc tree).length ≤ fuel + 1 → Delimited rest →
      parseValue (fuel + 1) (renderWith esc tree ++ rest) = some (tree, rest)) :
    ReadBack esc tree := by
  intro fuel rest hfuel hrest
  obtain ⟨_, _, htext, -⟩ := head_of_renderWith esc h
  cases fuel with
  | zero => simp [htext] at hfuel
  | succ fuel => exact hread fuel rest hfuel hrest

/-- **A value is read back** where a value ends. -/
theorem parseValue_renderWith (hesc : ReadsBack esc) (tree : Tree (List ℕ) (List ℕ))
    (h : Integral tree) : ReadBack esc tree := by
  induction tree using Tree.inductionOn with
  | null => exact .of_succ h fun _ _ _ _ => rfl
  | bool value => cases value <;> exact .of_succ h fun _ _ _ _ => rfl
  | number =>
    refine .of_succ h fun fuel rest _ hrest => ?_
    obtain ⟨unit, more, rfl, hunit⟩ := head_of_isIntegerLiteral h
    change parseValue (fuel + 1) (unit :: (more ++ rest)) = _
    have hnum := parseNumber_append h hrest
    rw [List.cons_append] at hnum
    rw [parseValue_number hunit, hnum]
    rfl
  | string units =>
    refine .of_succ h fun fuel rest _ _ => ?_
    have htext : renderWith esc (.string units) ++ rest =
        0x22 :: (units.flatMap esc ++ 0x22 :: rest) := by
      simp [renderWith, Tree.fold, renderStringWith]
    rw [htext, parseValue, skipSpace_cons rfl]
    simp only [parseChars_renderWith hesc, Option.map_some]
  | array items ih =>
    refine .of_succ h fun fuel rest hfuel _ => ?_
    have hitems := integral_array.mp h
    rw [renderWith_array] at hfuel ⊢
    simp only [List.cons_append, List.length_cons, List.length_append, List.length_nil] at hfuel
    rw [List.cons_append, List.cons_append, List.append_assoc, List.singleton_append,
      parseValue_array]
    cases items with
    | nil => rfl
    | cons first more =>
      have hread := parseItems_renderWith (List.cons_ne_nil first more)
        (fun item hitem => ih item hitem (hitems item hitem)) fuel rest (by omega)
      have hhead : ∃ unit tail,
          separated ((first :: more).map (renderWith esc)) ++ 0x5D :: rest = unit :: tail ∧
            isSpace unit = false ∧ unit ≠ 0x5D := by
        obtain ⟨unit, tail, htext, hunit⟩ :=
          head_of_renderWith esc (hitems first List.mem_cons_self)
        cases more <;> simp [separated, htext, hunit]
      obtain ⟨unit, tail, htext, hspace, hclose⟩ := hhead
      rw [htext] at hread ⊢
      rw [skipSpace_cons hspace]
      split
      · rename_i hspl
        exact absurd (List.cons.inj hspl).1 hclose
      · rw [hread]
        rfl
  | object entries ih =>
    refine .of_succ h fun fuel rest hfuel _ => ?_
    have hent := integral_object.mp h
    rw [renderWith_object] at hfuel ⊢
    simp only [List.cons_append, List.length_cons, List.length_append, List.length_nil] at hfuel
    rw [List.cons_append, List.cons_append, List.append_assoc, List.singleton_append,
      parseValue_object]
    cases entries with
    | nil => rfl
    | cons first more =>
      have hread := parseMembers_renderWith hesc (List.cons_ne_nil first more)
        (fun entry hentry => ih entry hentry (hent entry hentry)) fuel rest (by omega)
      have hhead : ∃ tail, separated ((first :: more).map (renderMemberWith esc)) ++ 0x7D :: rest =
            0x22 :: tail := by
        cases more <;> simp [separated, renderMemberWith, renderStringWith]
      obtain ⟨tail, htext⟩ := hhead
      rw [htext] at hread ⊢
      rw [skipSpace_cons rfl]
      simp only [hread, Option.map_some]

/-- **A tree is read back from its text.** -/
theorem parse_renderWith (hesc : ReadsBack esc) (h : Integral tree) :
    parse (renderWith esc tree) = some tree := by
  have hread := parseValue_renderWith hesc tree h ((renderWith esc tree).length + 1) [] (by omega)
    (by simp [Delimited])
  rw [List.append_nil] at hread
  rw [parse, hread]
  rfl

end RenderWith

theorem parse_render (h : Integral tree) : parse (render tree) = some tree := by
  rw [← renderWith_escape]
  exact parse_renderWith readsBack_escape h

/-! ### Integer literals -/

/-- The number a sequence of digits stands for, after a number read so far. -/
def digitsValue (digits : List ℕ) (sofar : ℕ) : ℕ :=
  digits.foldl (fun value digit => 10 * value + (digit - 0x30)) sofar

/-- The integer a literal stands for. -/
def literalValue : List ℕ → ℤ
  | 0x2D :: digits => -(digitsValue digits 0 : ℤ)
  | digits => (digitsValue digits 0 : ℤ)

/-- A natural number in decimal. -/
def showNat (n : ℕ) : List ℕ :=
  (Nat.toDigits 10 n).map Char.toNat

/-- An integer in decimal. -/
def showInteger : ℤ → List ℕ
  | .ofNat n => showNat n
  | .negSucc n => 0x2D :: showNat (n + 1)

theorem showNat_digit (h : n < 10) : showNat n = [0x30 + n] := by
  rw [showNat, Nat.toDigits_of_lt_base h, List.map_singleton, Nat.toNat_digitChar_of_lt_ten h]

/-- One more digit, written at the end. -/
theorem showNat_append {digit : ℕ} (hn : 0 < n) (hdig : isDigit digit = true) :
    showNat n ++ [digit] = showNat (10 * n + (digit - 0x30)) := by
  rw [isDigit_iff] at hdig
  have hlt : digit - 0x30 < 10 := by omega
  have hlast : showNat (digit - 0x30) = [digit] := by
    rw [showNat_digit hlt]
    exact congrArg (fun unit => [unit]) (by omega)
  rw [← hlast, showNat, showNat, showNat, ← List.map_append,
    Nat.toDigits_append_toDigits (by omega) hn hlt]

/-- A positive number begins with a digit other than zero. -/
theorem showNat_positive (n : ℕ) (hn : 0 < n) : ∃ digit rest, showNat n = digit :: rest ∧
    digit ≠ 0x30 ∧ isDigit digit = true ∧ rest.all isDigit = true := by
  induction n using Nat.strongRecOn with
  | ind n ih =>
    by_cases hsmall : n < 10
    · refine ⟨0x30 + n, [], showNat_digit hsmall, by omega, ?_, rfl⟩
      rw [isDigit_iff]
      omega
    -- all but the last digit are those of a tenth
    obtain ⟨digit, rest, hshow, hzero, hdig, hrest⟩ := ih (n / 10) (by omega) (by omega)
    have hlast : isDigit (0x30 + n % 10) = true := by
      rw [isDigit_iff]
      omega
    have happ := showNat_append (n := n / 10) (by omega) hlast
    have hnum : 10 * (n / 10) + (0x30 + n % 10 - 0x30) = n := by omega
    rw [hnum, hshow, List.cons_append] at happ
    refine ⟨digit, rest ++ [0x30 + n % 10], happ.symm, hzero, hdig, ?_⟩
    rw [List.all_append, hrest, Bool.true_and, List.all_cons, hlast]
    rfl

/-- **A decimal is an integer literal.** -/
theorem isIntegerLiteral_showInteger (value : ℤ) : isIntegerLiteral (showInteger value) = true := by
  have hpos : ∀ n, 0 < n → isUnsignedLiteral (showNat n) = true := by
    intro n hn
    obtain ⟨digit, rest, hshow, hzero, hdig, hrest⟩ := showNat_positive n hn
    rw [hshow, isUnsignedLiteral, if_neg hzero, hdig, hrest]
    rfl
  cases value with
  | ofNat n =>
    rcases Nat.eq_zero_or_pos n with rfl | hn
    · decide
    obtain ⟨digit, rest, hshow, -, hdig, -⟩ := showNat_positive n hn
    have huns := hpos n hn
    simp only [showInteger]
    rw [hshow] at huns ⊢
    have hsign : digit ≠ 0x2D := by
      rintro rfl
      cases hdig
    unfold isIntegerLiteral
    split
    · rename_i hmin
      exact absurd (List.cons.inj hmin).1 hsign
    · exact huns
  | negSucc n => exact hpos (n + 1) (Nat.succ_pos n)

/-- Digits read after a number are those written after it. -/
theorem showNat_digitsValue (hdig : digits.all isDigit = true) (hn : 0 < n) :
    showNat (digitsValue digits n) = showNat n ++ digits := by
  induction digits generalizing n with
  | nil => simp [digitsValue]
  | cons digit digits ih =>
    obtain ⟨hdigit, hrest⟩ := Bool.and_eq_true_iff.mp hdig
    have hnext := ih hrest (n := 10 * n + (digit - 0x30)) (by omega)
    rw [← showNat_append hn hdigit, List.append_assoc, List.singleton_append] at hnext
    exact hnext

/-- A number is written as the digits it was read from, and is positive unless that is a zero. -/
theorem showNat_unsigned (h : isUnsignedLiteral digits = true) :
    showNat (digitsValue digits 0) = digits ∧ (digits ≠ [0x30] → 0 < digitsValue digits 0) := by
  cases digits with
  | nil => cases h
  | cons digit rest =>
    simp only [isUnsignedLiteral] at h
    split at h
    · rename_i hzero
      obtain rfl : rest = [] := List.isEmpty_iff.mp h
      subst hzero
      exact ⟨rfl, fun hne => absurd rfl hne⟩
    · rename_i hzero
      obtain ⟨hdig, hrest⟩ := Bool.and_eq_true_iff.mp h
      have hboun := hdig
      rw [isDigit_iff] at hboun
      have hpos : 0 < digit - 0x30 := by omega
      have hval : digitsValue (digit :: rest) 0 = digitsValue rest (digit - 0x30) := by
        simp [digitsValue]
      have hshow := showNat_digitsValue hrest hpos
      rw [showNat_digit (n := digit - 0x30) (by omega), List.singleton_append] at hshow
      have hfir : 0x30 + (digit - 0x30) = digit := by omega
      rw [hfir] at hshow
      refine ⟨by rw [hval, hshow], fun _ => ?_⟩
      rw [hval]
      by_contra hnot
      have hnone : digitsValue rest (digit - 0x30) = 0 := by omega
      rw [hnone] at hshow
      exact hzero (List.cons.inj hshow).1.symm

/-- **An integer is written as the literal it was read from**, unless that is minus zero. -/
theorem showInteger_literalValue (h : isIntegerLiteral literal = true)
    (hzero : literal ≠ [0x2D, 0x30]) : showInteger (literalValue literal) = literal := by
  unfold isIntegerLiteral at h
  split at h
  · rename_i digits
    obtain ⟨hshow, hpos⟩ := showNat_unsigned h
    have hlt := hpos fun hdig => hzero (by rw [hdig])
    obtain ⟨n, hn⟩ := Nat.exists_eq_add_one.mpr hlt
    have hval : literalValue (0x2D :: digits) = .negSucc n := by
      rw [literalValue, hn]
      rfl
    rw [hval, showInteger, ← hn, hshow]
  · rename_i hsign
    rw [literalValue]
    · exact (showNat_unsigned h).1
    · exact hsign

/-- A number in decimal begins with no sign. -/
theorem mem_showNat (h : unit ∈ showNat n) : isDigit unit = true := by
  obtain ⟨_, hsym, rfl⟩ := List.mem_map.mp h
  have hdig := Nat.isDigit_of_mem_toDigits (by omega) (by omega) hsym
  simp only [Char.isDigit, Bool.and_eq_true, decide_eq_true_eq, ge_iff_le] at hdig
  rw [isDigit_iff]
  exact hdig

theorem digitsValue_showNat (n : ℕ) : digitsValue (showNat n) 0 = n := by
  rw [digitsValue, showNat, List.foldl_map]
  exact Nat.ofDigitChars_ten_toDigits

/-- **A number is read back from its decimal.** -/
theorem literalValue_showNat (n : ℕ) : literalValue (showNat n) = n := by
  rw [literalValue, digitsValue_showNat]
  intro digits hsign
  have hmin : isDigit 0x2D = true := mem_showNat (by rw [hsign]; exact List.mem_cons_self)
  cases hmin

theorem literalValue_showInteger (value : ℤ) : literalValue (showInteger value) = value := by
  cases value with
  | ofNat n => exact literalValue_showNat n
  | negSucc =>
    rw [showInteger, literalValue, digitsValue_showNat]
    rfl

end JsonText
