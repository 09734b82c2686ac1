import IslandSlots.Proofs.Slot.Reading
import IslandSlots.Slot.Data

/-!
# Reading slot data back

The data of a slot with plain properties only says their names and values again. Each property is a
key and a template literal, in which a backslash stands in front of whatever could end the quoted
text or begin an expression, and nowhere else. So a quoted text ends where it was ended and the
whole text has these names and values and no others, whatever separators, quotes and braces are in
them.
-/

namespace IslandSlots.SlotData

/-! ## Quoted texts -/

/-- What has a backslash in front of it in a quoted key. -/
def keyMarks : List (List Char) := [['\\'], ['\'']]

/-- What has a backslash in front of it in a template literal. -/
def literalMarks : List (List Char) := [['\\'], ['\x60'], ['$', '\x7b']]

/-- Whether one of the marks stands at the front of a text. -/
def isMarked (marks : List (List Char)) (text : List Char) : Bool :=
  marks.any (·.isPrefixOf text)

/-- In a quoted text a backslash stands in front of each mark and nowhere else. -/
inductive Escaped (marks : List (List Char)) : List Char → Prop where
  | nil : Escaped marks []
  /-- A mark has a backslash in front of it. -/
  | marked {c : Char} {rest : List Char} : isMarked marks (c :: rest) → Escaped marks rest →
      Escaped marks ('\\' :: c :: rest)
  /-- Where no mark stands, there is none. -/
  | plain {c : Char} {rest : List Char} : isMarked marks (c :: rest) = false →
      Escaped marks rest → Escaped marks (c :: rest)

/-- A quoted text without its backslashes. -/
def unescape : List Char → List Char
  | '\\' :: c :: rest => c :: unescape rest
  | c :: rest => c :: unescape rest
  | [] => []

/-- What a quoted text says up to the first quote without a backslash, and what is behind that. -/
def readQuoted (quote : Char) : List Char → Option (List Char × List Char)
  | '\\' :: c :: rest => (readQuoted quote rest).map fun (text, behind) => (c :: text, behind)
  | c :: rest =>
    if c = quote then some ([], rest)
    else (readQuoted quote rest).map fun (text, behind) => (c :: text, behind)
  | [] => none

theorem isMarked_eq_false_iff {marks : List (List Char)} {text : List Char} :
    isMarked marks text = false ↔ ∀ mark ∈ marks, ¬mark <+: text := by
  simp [isMarked, List.any_eq_false]

theorem ne_of_isMarked {marks : List (List Char)} {c mark : Char} {rest : List Char}
    (listed : [mark] ∈ marks) (plain : isMarked marks (c :: rest) = false) : c ≠ mark := by
  rintro rfl
  exact isMarked_eq_false_iff.mp plain [c] listed (List.prefix_append [c] rest)

theorem unescape_cons {c : Char} (other : c ≠ '\\') (rest : List Char) :
    unescape (c :: rest) = c :: unescape rest :=
  unescape.eq_2 c rest fun _ _ same _ => other same

theorem readQuoted_cons {quote c : Char} (other : c ≠ '\\') (rest : List Char) :
    readQuoted quote (c :: rest) = if c = quote then some ([], rest)
      else (readQuoted quote rest).map fun (text, behind) => (c :: text, behind) :=
  readQuoted.eq_2 quote c rest fun _ _ same _ => other same

/-- An escaped text is read up to the quote behind it, whatever comes then. -/
theorem Escaped.readQuoted_eq {marks : List (List Char)} {written : List Char} (quote : Char)
    (backslash : ['\\'] ∈ marks) (closes : [quote] ∈ marks) (other : quote ≠ '\\')
    (escaped : Escaped marks written) (behind : List Char) :
    readQuoted quote (written ++ quote :: behind) = some (unescape written, behind) := by
  induction escaped with
  | nil => rw [List.nil_append, readQuoted_cons other, if_pos rfl, unescape]
  | marked _ _ induction =>
      rw [List.cons_append, List.cons_append, readQuoted, induction, unescape]
      rfl
  | @plain c rest plain _ induction =>
      have solid := ne_of_isMarked backslash plain
      have inside := ne_of_isMarked closes plain
      rw [List.cons_append, readQuoted_cons solid, if_neg inside, induction, unescape_cons solid]
      rfl

/-! ## Keys and literals -/

theorem escaped_key (name : List Char) : Escaped keyMarks (name.flatMap keyChar) := by
  induction name with
  | nil => exact .nil
  | cons c name induction =>
      rw [List.flatMap_cons, keyChar]
      split_ifs with backslash quote
      · exact .marked rfl induction
      · exact .marked rfl induction
      · refine .plain (isMarked_eq_false_iff.mpr ?_) induction
        simp [keyMarks, List.cons_prefix_cons, Ne.symm backslash, Ne.symm quote]

theorem unescape_key (name : List Char) : unescape (name.flatMap keyChar) = name := by
  induction name with
  | nil => rfl
  | cons c name induction =>
      rw [List.flatMap_cons, keyChar]
      split_ifs with backslash quote
      · rw [backslash, List.cons_append, List.singleton_append, unescape, induction]
      · rw [quote, List.cons_append, List.singleton_append, unescape, induction]
      · rw [List.singleton_append, unescape_cons backslash, induction]

/-- Escaping puts no brace at the front of a text. -/
theorem brace_prefix_of_literalText {text : List Char} (stands : ['\x7b'] <+: literalText text) :
    ['\x7b'] <+: text := by
  fun_cases literalText text with
  | case4 c rest backslash quote hole =>
      rw [literalText.eq_4 c rest backslash quote hole] at stands
      exact List.cons_prefix_cons.mpr ⟨(List.cons_prefix_cons.mp stands).1, List.nil_prefix⟩
  | _ => simp [literalText, List.cons_prefix_cons] at stands

theorem escaped_literalText (text : List Char) : Escaped literalMarks (literalText text) := by
  fun_induction literalText text with
  | case1 rest induction => exact .marked rfl induction
  | case2 rest induction => exact .marked rfl induction
  | case3 rest induction => exact .marked rfl (.plain rfl induction)
  | case4 c rest backslash quote hole induction =>
      refine .plain (isMarked_eq_false_iff.mpr ?_) induction
      simp only [literalMarks, List.forall_mem_cons, List.cons_prefix_cons]
      refine ⟨fun same => backslash same.1.symm, fun same => quote same.1.symm, ?_,
        List.forall_mem_nil _⟩
      rintro ⟨rfl, brace⟩
      obtain ⟨behind, rfl⟩ := brace_prefix_of_literalText brace
      exact hole behind rfl rfl
  | case5 => exact .nil

theorem unescape_literalText (text : List Char) : unescape (literalText text) = text := by
  fun_induction literalText text with
  | case1 rest induction => rw [unescape, induction]
  | case2 rest induction => rw [unescape, induction]
  | case3 rest induction => rw [unescape, unescape_cons (by decide), induction]
  | case4 c rest backslash quote hole induction => rw [unescape_cons backslash, induction]
  | case5 => rfl

/-! ## One mark after the other -/

/-- A text with a backslash in front of each place of a mark. -/
def escapeMark (mark : List Char) : List Char → List Char
  | [] => []
  | c :: rest =>
    if mark.isPrefixOf (c :: rest) then '\\' :: c :: escapeMark mark rest
    else c :: escapeMark mark rest

theorem escapeMark_cons {mark : List Char} {c : Char} {rest : List Char}
    (other : ¬mark <+: c :: rest) : escapeMark mark (c :: rest) = c :: escapeMark mark rest :=
  if_neg (by rwa [List.isPrefixOf_iff_prefix])

/-- Escaping a mark puts no brace at the front of a text. -/
theorem brace_prefix_of_escapeMark {mark text : List Char}
    (stands : ['\x7b'] <+: escapeMark mark text) : ['\x7b'] <+: text := by
  cases text with
  | nil => exact stands
  | cons c rest =>
      rw [escapeMark] at stands
      split at stands
      · cases (List.cons_prefix_cons.mp stands).1
      · exact List.cons_prefix_cons.mpr ⟨(List.cons_prefix_cons.mp stands).1, List.nil_prefix⟩

/-- The marks of a key can be escaped one after the other. -/
theorem key_eq_escapeMark (name : List Char) :
    name.flatMap keyChar = keyMarks.foldl (fun text mark => escapeMark mark text) name := by
  simp only [keyMarks, List.foldl_cons, List.foldl_nil]
  induction name with
  | nil => rfl
  | cons c name induction =>
      rw [List.flatMap_cons, keyChar, induction]
      split_ifs with backslash quote
      · rw [backslash]
        rfl
      · rw [quote]
        rfl
      · have no_backslash : ¬['\\'] <+: c :: name := by
          simpa [List.cons_prefix_cons] using Ne.symm backslash
        have no_quote : ¬['\''] <+: c :: escapeMark ['\\'] name := by
          simpa [List.cons_prefix_cons] using Ne.symm quote
        rw [escapeMark_cons no_backslash, escapeMark_cons no_quote, List.singleton_append]

/-- The marks of a literal can be escaped one after the other. -/
theorem literalText_eq_escapeMark (text : List Char) :
    literalText text = literalMarks.foldl (fun text mark => escapeMark mark text) text := by
  simp only [literalMarks, List.foldl_cons, List.foldl_nil]
  fun_induction literalText text with
  | case1 rest induction => rw [induction]; rfl
  | case2 rest induction => rw [induction]; rfl
  | case3 rest induction => rw [induction]; rfl
  | case4 c rest backslash quote hole induction =>
      have no_backslash : ¬['\\'] <+: c :: rest := by
        simpa [List.cons_prefix_cons] using Ne.symm backslash
      have no_quote : ¬['\x60'] <+: c :: escapeMark ['\\'] rest := by
        simpa [List.cons_prefix_cons] using Ne.symm quote
      have no_hole : ¬['$', '\x7b'] <+: c :: escapeMark ['\x60'] (escapeMark ['\\'] rest) := by
        intro stands
        obtain ⟨dollar, brace⟩ := List.cons_prefix_cons.mp stands
        obtain ⟨behind, rfl⟩ := brace_prefix_of_escapeMark (brace_prefix_of_escapeMark brace)
        exact hole behind dollar.symm rfl
      rw [escapeMark_cons no_backslash, escapeMark_cons no_quote, escapeMark_cons no_hole,
        induction]
  | case5 => rfl

/-! ## The whole text -/

/-- A text is the key of a property with the given name: an identifier as it is or a quoted text. -/
inductive IsKey : List Char → String → Prop where
  | bare {name : String} : isIdentifier name.toList → IsKey name.toList name
  | quoted {inner : List Char} : Escaped keyMarks inner →
      IsKey ('\'' :: inner ++ ['\'']) (String.ofList (unescape inner))

/-- A text is a property: a key and a template literal, with the name and the value they say. -/
inductive IsEntry : List Char → String × String → Prop where
  | entry {key body : List Char} {name : String} : IsKey key name → Escaped literalMarks body →
      IsEntry (key ++ ':' :: ' ' :: '\x60' :: body ++ ['\x60'])
        (name, String.ofList (unescape body))

/-- A text is a row of properties with commas between them. -/
inductive IsRow : List Char → List (String × String) → Prop where
  | last {written : List Char} {entry : String × String} : IsEntry written entry →
      IsRow written [entry]
  | cons {written rest : List Char} {entry : String × String} {entries : List (String × String)} :
      IsEntry written entry → IsRow rest entries →
        IsRow (written ++ ',' :: ' ' :: rest) (entry :: entries)

/-- A text is an object with the given names and values. -/
inductive IsObject : List Char → List (String × String) → Prop where
  | empty : IsObject "\x7b\x7d".toList []
  | filled {written : List Char} {entries : List (String × String)} : IsRow written entries →
      IsObject ("\x7b ".toList ++ (written ++ " \x7d".toList)) entries

/-- A text is the data of a slot with the given names and values. -/
inductive IsData : List Char → List (String × String) → Prop where
  | data {written : List Char} {entries : List (String × String)} : IsObject written entries →
      IsData ("JSON.stringify([".toList ++ (written ++ "])".toList)) entries

/-- The name and the value that an attribute passes. -/
def passed (attr : TemplateAttribute) : String × String :=
  (attr.name, attr.value.getD "")

theorem isKey_key (name : String) : IsKey (key name.toList) name := by
  rw [key]
  split_ifs with bare
  · exact .bare bare
  · have quoted := IsKey.quoted (escaped_key name.toList)
    rwa [unescape_key, String.ofList_toList] at quoted

theorem property_eq {attr : TemplateAttribute} (plain : attr.kind = .plain) :
    property attr =
      String.ofList (key (passed attr).1.toList) ++ ": " ++ literal (passed attr).2 := by
  rw [property, value, plain]
  rfl

theorem isEntry_property {attr : TemplateAttribute} (plain : attr.kind = .plain) :
    IsEntry (property attr).toList (passed attr) := by
  have entry :=
    IsEntry.entry (isKey_key (passed attr).1) (escaped_literalText (passed attr).2.toList)
  rw [unescape_literalText, String.ofList_toList] at entry
  simpa [property_eq plain, literal] using entry

theorem isRow_properties {attr : TemplateAttribute} {properties : List TemplateAttribute}
    (plain : ∀ other ∈ attr :: properties, other.kind = .plain) :
    IsRow (String.intercalate ", " ((attr :: properties).map property)).toList
      ((attr :: properties).map passed) := by
  induction properties generalizing attr with
  | nil => simpa using IsRow.last (isEntry_property (plain attr List.mem_cons_self))
  | cons next properties induction =>
      obtain ⟨first, others⟩ := List.forall_mem_cons.mp plain
      simpa using IsRow.cons (isEntry_property first) (induction others)

theorem isObject_object {properties : List TemplateAttribute}
    (plain : ∀ attr ∈ properties, attr.kind = .plain) :
    IsObject (object properties none).toList (properties.map passed) := by
  cases properties with
  | nil => exact .empty
  | cons attr properties =>
      have filled := IsObject.filled (isRow_properties plain)
      rwa [← List.append_assoc, ← String.toList_append, ← String.toList_append] at filled

/-- The data of plain properties has their names and values. -/
theorem isData_expression {properties : List TemplateAttribute}
    (plain : ∀ attr ∈ properties, attr.kind = .plain) :
    IsData (expression properties none none).toList (properties.map passed) := by
  have data := IsData.data (isObject_object plain)
  rwa [← List.append_assoc, ← String.toList_append, ← String.toList_append] at data

/-- The text of plain properties depends on their names and values only. -/
theorem object_eq {properties : List TemplateAttribute}
    (plain : ∀ attr ∈ properties, attr.kind = .plain) :
    object properties none = object ((properties.map passed).map fun (name, value) =>
      ⟨.plain, name, some value⟩) none := by
  have same : properties.map property = ((properties.map passed).map fun (name, value) =>
      (⟨.plain, name, some value⟩ : TemplateAttribute)).map property := by
    rw [List.map_map, List.map_map]
    refine List.map_congr_left fun attr member => ?_
    rw [property_eq (plain attr member)]
    rfl
  rw [object, object, same]

/-! ## Reading it back -/

/-- The name that a key says, and what is behind the key. -/
def readKey : List Char → Option (String × List Char)
  | '\'' :: rest => (readQuoted '\'' rest).map fun (text, behind) => (String.ofList text, behind)
  | text => some (String.ofList (text.takeWhile (· != ':')), text.dropWhile (· != ':'))

/-- The name and the value that a property says, and what is behind it. -/
def readEntry (text : List Char) : Option ((String × String) × List Char) := do
  let (name, rest) ← readKey text
  let (value, behind) ← readQuoted '\x60' (rest.drop 3)
  return ((name, String.ofList value), behind)

/-- An identifier does not begin with a quote and has no colon in it. -/
theorem bounds_of_isIdentifier {name : List Char} (bare : isIdentifier name) :
    name.head? ≠ some '\'' ∧ ':' ∉ name := by
  obtain ⟨begins, goesOn⟩ := (Bool.and_eq_true _ _).mp bare
  constructor
  · intro quote
    rw [quote] at begins
    cases begins
  · intro colon
    exact absurd (List.all_eq_true.mp goesOn ':' colon) (by decide)

theorem IsKey.readKey_eq {written : List Char} {name : String} (key : IsKey written name)
    (behind : List Char) : readKey (written ++ ':' :: behind) = some (name, ':' :: behind) := by
  cases key with
  | bare bare =>
      obtain ⟨unquoted, apart⟩ := bounds_of_isIdentifier bare
      have goesOn : ∀ c ∈ name.toList, c != ':' := fun c member =>
        bne_iff_ne.mpr fun colon => apart (colon ▸ member)
      rw [readKey.eq_2, List.takeWhile_append_of_pos goesOn, List.dropWhile_append_of_pos goesOn]
      · simp
      · intro rest quoted
        cases here : name.toList with
        | nil =>
            rw [here] at quoted
            cases (List.cons.inj quoted).1
        | cons c chars =>
            rw [here] at quoted unquoted
            exact unquoted (congrArg some (List.cons.inj quoted).1)
  | quoted escaped =>
      have inner := escaped.readQuoted_eq '\'' (by decide) (by decide) (by decide)
      rw [List.append_assoc, List.cons_append, readKey, List.singleton_append, inner]
      rfl

theorem IsEntry.readEntry_eq {written : List Char} {entry : String × String}
    (isEntry : IsEntry written entry) (behind : List Char) :
    readEntry (written ++ behind) = some (entry, behind) := by
  cases isEntry with
  | entry key escaped =>
      have body := escaped.readQuoted_eq '\x60' (by decide) (by decide) (by decide)
      simp only [readEntry, List.append_assoc, List.cons_append, List.nil_append, key.readKey_eq,
        List.drop_succ_cons, List.drop_zero, Option.bind_some, bind, body]
      rfl

/-- A property ends where it was ended. -/
theorem IsEntry.eq_of_append {written other behind rest : List Char}
    {entry second : String × String} (isEntry : IsEntry written entry)
    (others : IsEntry other second) (same : written ++ behind = other ++ rest) :
    entry = second ∧ behind = rest := by
  have read := isEntry.readEntry_eq behind
  rw [same, others.readEntry_eq, Option.some_inj, Prod.mk.injEq] at read
  exact ⟨read.1.symm, read.2.symm⟩

theorem IsRow.eq_of_append {written other behind rest : List Char}
    {entries others : List (String × String)} (row : IsRow written entries)
    (second : IsRow other others) (same : written ++ ' ' :: behind = other ++ ' ' :: rest) :
    entries = others ∧ behind = rest := by
  induction row generalizing other others with
  | last isEntry =>
      cases second with
      | last another =>
          obtain ⟨rfl, same⟩ := isEntry.eq_of_append another same
          exact ⟨rfl, (List.cons.inj same).2⟩
      | cons another =>
          rw [List.append_assoc] at same
          cases (isEntry.eq_of_append another same).2
  | cons isEntry _ induction =>
      cases second with
      | last another =>
          rw [List.append_assoc] at same
          cases (isEntry.eq_of_append another same).2
      | cons another more =>
          rw [List.append_assoc, List.append_assoc] at same
          obtain ⟨rfl, same⟩ := isEntry.eq_of_append another same
          obtain ⟨rfl, same⟩ := induction more (List.cons.inj (List.cons.inj same).2).2
          exact ⟨rfl, same⟩

theorem IsObject.eq_of_append {written other behind rest : List Char}
    {entries others : List (String × String)} (isObject : IsObject written entries)
    (second : IsObject other others) (same : written ++ behind = other ++ rest) :
    entries = others := by
  cases isObject with
  | empty =>
      cases second with
      | empty => rfl
      | filled => cases same
  | filled row =>
      cases second with
      | empty => cases same
      | filled more =>
          rw [List.append_assoc, List.append_assoc, List.append_assoc, List.append_assoc] at same
          exact (row.eq_of_append more (List.append_cancel_left same)).1

/-- A text is the data of one row of names and values only. -/
theorem IsData.unique {written : List Char} {entries others : List (String × String)}
    (data : IsData written entries) (second : IsData written others) : entries = others := by
  generalize written_eq : written = other at second
  cases data with
  | data isObject =>
      cases second with
      | data another => exact isObject.eq_of_append another (List.append_cancel_left written_eq)

/-- The data of plain properties is that of their names and values and of no others: each key is an
identifier or a quoted text and each value a template literal, which say the name and the value
again. So no other names and values, or other order, give the same data, and in an attribute it has
no double quote in it. -/
theorem expression_readBack {properties : List TemplateAttribute}
    (plain : ∀ attr ∈ properties, attr.kind = .plain) :
    IsData (expression properties none none).toList (properties.map passed) ∧
      (∀ entries, IsData (expression properties none none).toList entries →
        entries = properties.map passed) ∧
      (∀ others : List TemplateAttribute, (∀ attr ∈ others, attr.kind = .plain) →
        (expression others none none = expression properties none none ↔
          others.map passed = properties.map passed)) ∧
      '"' ∉ (escapeQuotes (expression properties none none)).toList := by
  have data := isData_expression plain
  refine ⟨data, fun entries second => second.unique data, fun others others_plain => ?_,
    quote_notMem_escapeQuotes _⟩
  have others_data := isData_expression others_plain
  constructor
  · intro same
    rw [same] at others_data
    exact others_data.unique data
  · intro same
    have objects : object others none = object properties none := by
      rw [object_eq others_plain, object_eq plain, same]
    unfold expression
    rw [objects]

/-- Quotes, separators, backslashes and the beginning of an expression in a name and in values. -/
theorem expression_readBack_separators :
    let properties : List TemplateAttribute :=
      [⟨.plain, "it's\\", some "a\x60, b: \x60$\x7bc"⟩, ⟨.plain, "b", none⟩]
    let written := "JSON.stringify([\x7b 'it\\'s\\\\': \x60a\\\x60, b: \\\x60\\$\x7bc\x60, " ++
      "b: \x60\x60 \x7d])"
    (∀ attr ∈ properties, attr.kind = .plain) ∧ expression properties none none = written ∧
      ∀ entries, IsData written.toList entries →
        entries = [("it's\\", "a\x60, b: \x60$\x7bc"), ("b", "")] := by
  intro properties written
  have plain : ∀ attr ∈ properties, attr.kind = .plain := by decide
  have written_eq : expression properties none none = written := by decide +kernel
  obtain ⟨-, unique, -, -⟩ := expression_readBack plain
  rw [written_eq] at unique
  exact ⟨plain, written_eq, unique⟩

end IslandSlots.SlotData
