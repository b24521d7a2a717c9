import Mathlib.Data.List.Induction
import Excerpt.Proofs.CommandLine.Operands

/-!
This module contains the ways in which a switch and its value can be written, and that they all mean the same. What
an argument is taken for does not depend on those around it, so each switch is read as if it stood alone.
-/

namespace Excerpt

structure Item where
  s : Switch
  value : Text
  ne_help : s ≠ .help
  value_ne_nil : value ≠ []
  head?_ne_dash : value.head? ≠ some '-'
  head?_ne_equals : value.head? ≠ some '='

namespace Item

inductive Spelled (item : Item) : List Text → Prop
  | shortApart : Spelled item [item.s.short, item.value]
  | shortJoined : Spelled item [item.s.short ++ item.value]
  | shortEquals : Spelled item [item.s.short ++ '=' :: item.value]
  | longApart {name : Text} (h : name <+: item.s.word) (hne : name ≠ [])
    : Spelled item ['-' :: '-' :: name, item.value]
  | longEquals {name : Text} (h : name <+: item.s.word) (hne : name ≠ [])
    : Spelled item ['-' :: '-' :: name ++ '=' :: item.value]

/--
Items one after the other, and then the names of inputs behind a terminator. There may be no names, and no terminator
either.
-/
inductive SpelledAll : List Item → List Text → List Text → Prop
  | done : SpelledAll [] [] []
  | names {names : List Text} : SpelledAll [] names (terminatorText :: names)
  | cons {item : Item} {items : List Item} {names front arguments : List Text}
    (h : item.Spelled front) (hmore : SpelledAll items names arguments)
    : SpelledAll (item :: items) names (front ++ arguments)

def list? (item : Item) : Option (ListKind × Text) :=
  match item.s with
  | .list kind => some (kind, item.value)
  | _ => none

def delimiter? (item : Item) : Option Text :=
  match item.s with
  | .delimiter => some item.value
  | _ => none

/--
What items and names amount to, however they are written. The first list whose kind differs from an earlier one is
refused; otherwise the last list counts, and the last delimiter.
-/
def meaning (items : List Item) (names : List Text) : Except Halt Arguments :=
  match items.filterMap list? with
  | [] => .error (.misuse .listMissing)
  | first :: more =>
    match more.find? (·.1 ≠ first.1) with
    | some other => .error (.misuse (.conflict (.list other.1) (.list first.1)))
    | none =>
      .ok (.ofList first.1 (.text (more.getLast?.getD first).2)
        (.text ((items.filterMap delimiter?).getLast?.getD ['\t'])) (if names = [] then [['-']] else names))

end Item

namespace Switch

variable {s s' : Switch} {name : Text}

theorem letter_inj (h : s'.letter = s.letter) : s' = s := by
  have heq := ofLetter?_letter s'
  rw [h, ofLetter?_letter] at heq
  exact (Option.some.inj heq).symm

theorem letter_ne {c : Char} (s : Switch) (h : ofLetter? c = none) : s.letter ≠ c := by
  rintro rfl
  rw [ofLetter?_letter] at h
  cases h

theorem word_eq_cons (s : Switch) : ∃ more, s.word = s.letter :: more := by
  cases s with
  | list kind => cases kind <;> exact ⟨_, rfl⟩
  | _ => exact ⟨_, rfl⟩

theorem equals_not_mem_word (s : Switch) : '=' ∉ s.word := by
  cases s with
  | list kind => cases kind <;> decide
  | _ => decide

theorem eq_of_prefix (hne : name ≠ []) (h : name <+: s.word) (h' : name <+: s'.word) : s' = s := by
  obtain ⟨more, hmore⟩ := word_eq_cons s
  obtain ⟨more', hmore'⟩ := word_eq_cons s'
  cases name with
  | nil => exact absurd rfl hne
  | cons c name =>
    rw [hmore, List.cons_prefix_cons] at h
    rw [hmore', List.cons_prefix_cons] at h'
    exact letter_inj (h'.1.symm.trans h.1)

theorem completions_of_prefix (hne : name ≠ []) (h : name <+: s.word) : completions ('-' :: '-' :: name) = [s] := by
  have hcompletes : ∀ s' ∈ all, List.isPrefixOf ('-' :: '-' :: name) s'.long = decide (s' = s) := by
    intro s' _
    rw [Bool.eq_iff_iff, List.isPrefixOf_iff_prefix, decide_eq_true_iff, long, List.cons_prefix_cons,
      List.cons_prefix_cons]
    constructor
    . rintro ⟨_, _, h'⟩
      exact eq_of_prefix hne h h'
    . rintro rfl
      exact ⟨rfl, rfl, h⟩
  rw [completions, List.filter_congr hcompletes]
  cases s with
  | list kind => cases kind <;> rfl
  | _ => rfl

end Switch

namespace Token

variable {s : Switch} {c : Char} {name value : Text}

theorem nameAndValue_cons_of_ne (hc : c ≠ '=') (rest : Text) :
    nameAndValue (c :: rest) = (c :: (nameAndValue rest).1, (nameAndValue rest).2) := by
  rw [nameAndValue, nameAndValue, Text.divideAt, if_neg hc]
  cases Text.divideAt '=' rest with
  | none => rfl
  | some parts => rfl

theorem nameAndValue_of_not_mem (h : '=' ∉ name) : nameAndValue name = (name, none) := by
  induction name with
  | nil => rfl
  | cons c name ih =>
    rw [List.mem_cons, not_or] at h
    rw [nameAndValue_cons_of_ne (Ne.symm h.1), ih h.2]

theorem nameAndValue_append_equals (h : '=' ∉ name) (value : Text) :
    nameAndValue (name ++ '=' :: value) = (name, some value) := by
  induction name with
  | nil => rfl
  | cons c name ih =>
    rw [List.mem_cons, not_or] at h
    rw [List.cons_append, nameAndValue_cons_of_ne (Ne.symm h.1), ih h.2]

theorem ofSpelling?_short (s : Switch) : ofSpelling? s.short = some (s, .short) := by
  rw [Switch.short, ofSpelling?, Switch.ofLetter?_letter]
  rfl

theorem ofSpelling?_long (hne : name ≠ []) :
    ofSpelling? ('-' :: '-' :: name) = (Switch.all.find? (Switch.long · = '-' :: '-' :: name)).map (·, .long) := by
  cases name with
  | nil => exact absurd rfl hne
  | cons c name => rfl

theorem ofSpelling?_joined (hc : c ≠ '-') (hne : name ≠ []) : ofSpelling? ('-' :: c :: name) = none := by
  cases name with
  | nil => exact absurd rfl hne
  | cons c' name =>
    rw [ofSpelling?, Option.map_eq_none_iff, List.find?_eq_none]
    . intro s _ h
      rw [decide_eq_true_iff, Switch.long, List.cons.injEq, List.cons.injEq] at h
      exact hc h.2.1.symm
    . simp

section

variable {rest : Text} {given : Option Text}

theorem classify_of_spelling {spelling : Spelling} (hname : nameAndValue ('-' :: c :: rest) = (name, given))
    (h : ofSpelling? name = some (s, spelling)) :
    classify ('-' :: c :: rest) = .ok (.switch s spelling given) := by
  rw [classify_dashed, hname]
  simp only [h]

theorem classify_long (hne : name ≠ []) (h : name <+: s.word)
    (hname : nameAndValue ('-' :: '-' :: rest) = ('-' :: '-' :: name, given)) :
    classify ('-' :: '-' :: rest) = .ok (.switch s .long given) := by
  -- A whole name is found as such, before it is looked up as the beginning of one.
  cases hspelling : ofSpelling? ('-' :: '-' :: name) with
  | none =>
    rw [classify_dashed, hname]
    simp only [hspelling, Switch.completions_of_prefix hne h, if_true]
  | some found =>
    rw [ofSpelling?_long hne, Option.map_eq_some_iff] at hspelling
    obtain ⟨s', hfind, rfl⟩ := hspelling
    have hlong : s'.long = '-' :: '-' :: name := by simpa using List.find?_some hfind
    rw [Switch.long, List.cons.injEq, List.cons.injEq] at hlong
    have heq : s' = s := Switch.eq_of_prefix hne h (hlong.2.2 ▸ List.prefix_refl _)
    rw [← heq]
    exact classify_of_spelling hname (by rw [ofSpelling?_long hne, hfind, Option.map_some])

end

theorem equals_not_mem_short (s : Switch) : '=' ∉ s.short := by
  have hletter : s.letter ≠ '=' := Switch.letter_ne s rfl
  simp [Switch.short, hletter.symm]

theorem equals_not_mem_long (h : name <+: s.word) : '=' ∉ '-' :: '-' :: name := by
  simpa using fun hmem => Switch.equals_not_mem_word s (h.subset hmem)

theorem classify_short (s : Switch) : classify s.short = .ok (.switch s .short none) :=
  classify_of_spelling (nameAndValue_of_not_mem (equals_not_mem_short s)) (ofSpelling?_short s)

theorem classify_short_equals (s : Switch) (value : Text) :
    classify (s.short ++ '=' :: value) = .ok (.switch s .short (some value)) :=
  classify_of_spelling (nameAndValue_append_equals (equals_not_mem_short s) value) (ofSpelling?_short s)

theorem classify_short_joined (hne : value ≠ []) (hequals : value.head? ≠ some '=') :
    classify (s.short ++ value) = .ok (.switch s .short (some value)) := by
  cases value with
  | nil => exact absurd rfl hne
  | cons c value =>
    have hname : (nameAndValue ('-' :: s.letter :: c :: value)).1 = '-' :: s.letter :: c :: (nameAndValue value).1 := by
      rw [nameAndValue_cons_of_ne (by decide), nameAndValue_cons_of_ne (Switch.letter_ne s rfl),
        nameAndValue_cons_of_ne fun h => hequals (congrArg some h)]
    have hletter : s.letter ≠ '-' := Switch.letter_ne s rfl
    have hnone := ofSpelling?_joined hletter (List.cons_ne_nil c (nameAndValue value).1)
    rw [Switch.short, List.cons_append, List.cons_append, List.nil_append, classify_dashed, hname, hnone]
    simp only [if_neg hletter, Switch.ofLetter?_letter]

theorem classify_value (h : value.head? ≠ some '-') : classify value = .ok (.operand value) := by
  apply classify_of_head
  rintro c rest rfl
  exact h rfl

theorem classifyAll_cons {argument : Text} {token : Token} (hne : argument ≠ terminatorText)
    (h : classify argument = .ok token) (arguments : List Text) :
    classifyAll (argument :: arguments) = (classifyAll arguments).map (token :: ·) := by
  rw [classifyAll, h]
  exact if_neg hne

end Token

namespace Progress

theorem awaited_of_assign {p q : Progress} {s : Switch} {value : Value} (hp : p.operands = .awaited)
    (hq : p.assign s value = .ok q) : q.operands = .awaited := by
  rcases assign_eq_ok hq with ⟨_, rfl⟩ | ⟨kind, _, rfl⟩
  . simp [hp, Operands.close]
  . simp [hp, Operands.close]

end Progress

namespace Item

variable {item : Item} {items : List Item} {names front arguments : List Text} {p q : Progress} {tokens : List Token}

inductive Classified (item : Item) : List Token → Prop
  | attached (spelling : Spelling) : Classified item [.switch item.s spelling (some item.value)]
  | apart (spelling : Spelling) : Classified item [.switch item.s spelling none, .operand item.value]

def ClassifiedFrom (item : Item) (front : List Text) : Prop :=
  ∃ tokens, item.Classified tokens
    ∧ ∀ more, Token.classifyAll (front ++ more) = (Token.classifyAll more).map (tokens ++ ·)

theorem short_append_ne_terminator (s : Switch) (text : Text) : s.short ++ text ≠ terminatorText := by
  intro h
  exact Switch.letter_ne s rfl (List.cons.inj (List.cons.inj h).2).1

theorem value_ne_terminator (item : Item) : item.value ≠ terminatorText := by
  intro h
  exact item.head?_ne_dash (congrArg List.head? h)

section

variable {argument : Text} {spelling : Spelling} (hne : argument ≠ terminatorText)

include hne

theorem classifiedFrom_attached (h : Token.classify argument = .ok (.switch item.s spelling (some item.value))) :
    item.ClassifiedFrom [argument] :=
  ⟨_, .attached spelling, Token.classifyAll_cons hne h⟩

theorem classifiedFrom_apart (h : Token.classify argument = .ok (.switch item.s spelling none)) :
    item.ClassifiedFrom [argument, item.value] := by
  refine ⟨_, .apart spelling, ?_⟩
  intro more
  rw [List.cons_append, Token.classifyAll_cons hne h, List.singleton_append,
    Token.classifyAll_cons item.value_ne_terminator (Token.classify_value item.head?_ne_dash)]
  cases Token.classifyAll more with
  | error e => rfl
  | ok tokens => rfl

end

theorem Spelled.classifiedFrom (h : item.Spelled front) : item.ClassifiedFrom front := by
  cases h with
  | shortApart =>
    have hne := short_append_ne_terminator item.s []
    exact classifiedFrom_apart hne (Token.classify_short item.s)
  | shortJoined =>
    have hne := short_append_ne_terminator item.s item.value
    exact classifiedFrom_attached hne (Token.classify_short_joined item.value_ne_nil item.head?_ne_equals)
  | shortEquals =>
    have hne := short_append_ne_terminator item.s ('=' :: item.value)
    exact classifiedFrom_attached hne (Token.classify_short_equals item.s item.value)
  | @longApart name h hname =>
    have hne : '-' :: '-' :: name ≠ terminatorText := by simpa [terminatorText] using hname
    exact classifiedFrom_apart hne
      (Token.classify_long hname h (Token.nameAndValue_of_not_mem (Token.equals_not_mem_long h)))
  | @longEquals name h hname =>
    have hne : '-' :: '-' :: name ++ '=' :: item.value ≠ terminatorText := by simp [terminatorText]
    exact classifiedFrom_attached hne
      (Token.classify_long hname h (Token.nameAndValue_append_equals (Token.equals_not_mem_long h) item.value))

def assignAll (p : Progress) (items : List Item) : Except Halt Progress :=
  items.foldlM (fun p item => p.assign item.s (.text item.value)) p

theorem assignAll_cons (p : Progress) (item : Item) (items : List Item) :
    assignAll p (item :: items)
      = match p.assign item.s (.text item.value) with
        | .error halt => .error halt
        | .ok q => assignAll q items := by
  rw [assignAll, List.foldlM_cons]
  cases p.assign item.s (.text item.value) with
  | error halt => rfl
  | ok q => rfl

theorem assignAll_append_of_ok (h : assignAll p items = .ok q) (more : List Item) :
    assignAll p (items ++ more) = assignAll q more := by
  rw [assignAll, List.foldlM_append, ← assignAll, h]
  rfl

theorem Classified.read (h : item.Classified tokens) (p : Progress) (more : List Token) :
    p.read (tokens ++ more)
      = match p.assign item.s (.text item.value) with
        | .error halt => .error halt
        | .ok q => q.read more := by
  have hvalue : Value.ofAttached item.value = .text item.value := if_neg item.value_ne_terminator
  have hhelp := item.ne_help
  cases h with
  | attached =>
    rw [← hvalue]
    cases hs : item.s with
    | help => exact absurd hs hhelp
    | _ => rfl
  | apart =>
    cases hs : item.s with
    | help => exact absurd hs hhelp
    | _ => rfl

theorem SpelledAll.read (h : SpelledAll items names arguments) :
    ∃ tokens operands, Token.classifyAll arguments = .ok tokens ∧ operands.names = names
      ∧ ∀ p : Progress, p.operands = .awaited →
          p.read tokens = (assignAll p items).map fun q => { q with operands := operands } := by
  induction h with
  | done =>
    refine ⟨[], .awaited, rfl, rfl, ?_⟩
    intro p hp
    rw [← hp]
    rfl
  | @names names =>
    -- No operand has been read, so the run begins with the terminator and goes on to the end.
    refine ⟨.terminator :: names.map .operand, .running names, rfl, rfl, ?_⟩
    intro p hp
    have hrunning : p.terminator = { p with operands := .running [] } := by simp [Progress.terminator, hp]
    rw [Progress.read, hrunning, Progress.read_operands_of_running rfl]
    rfl
  | @cons item items names front arguments h _ ih =>
    obtain ⟨tokens, operands, hmore, hnames, hread⟩ := ih
    obtain ⟨itemTokens, hitem, hclassify⟩ := h.classifiedFrom
    refine ⟨itemTokens ++ tokens, operands, ?_, hnames, ?_⟩
    . rw [hclassify, hmore]
      rfl
    . intro p hp
      rw [hitem.read, assignAll_cons]
      cases hassign : p.assign item.s (.text item.value) with
      | error halt => rfl
      | ok q => exact hread q (Progress.awaited_of_assign hp hassign)

theorem SpelledAll.parse_eq (h : SpelledAll items names arguments) :
    Arguments.parse arguments
      = match assignAll {} items with
        | .error halt => .error halt
        | .ok p => Progress.finish { p with operands := .running names } := by
  obtain ⟨tokens, operands, hclassify, hnames, hread⟩ := h.read
  simp only [Arguments.parse, hclassify, hread {} rfl]
  cases assignAll {} items with
  | error halt => rfl
  | ok p =>
    simp only [Except.map, Progress.finish, hnames]
    rfl

def settled (items : List Item) : Progress where
  list := (items.filterMap list?).getLast?.map fun (kind, value) => (kind, .text value)
  delimiter := .text ((items.filterMap delimiter?).getLast?.getD ['\t'])

theorem exists_of_filterMap_list? {front behind : List (ListKind × Text)} {given : ListKind × Text}
    (h : items.filterMap list? = front ++ given :: behind) :
    ∃ before item after,
      items = before ++ item :: after ∧ before.filterMap list? = front ∧ item.s = .list given.1 := by
  obtain ⟨before, rest, rfl, hbefore, hrest⟩ := List.filterMap_eq_append_iff.mp h
  obtain ⟨silent, item, after, rfl, hsilent, hitem, _⟩ := List.filterMap_eq_cons_iff.mp hrest
  refine ⟨before ++ silent, item, after, (List.append_assoc _ _ _).symm, ?_, ?_⟩
  . rw [List.filterMap_append, List.filterMap_eq_nil_iff.mpr hsilent, List.append_nil, hbefore]
  . unfold list? at hitem
    split at hitem
    . next kind hs =>
      cases hitem
      exact hs
    . cases hitem

section

variable {kind kind' : ListKind}

theorem settled_list {given : ListKind × Text} (h : (items.filterMap list?).getLast? = some given) :
    (settled items).list = some (given.1, .text given.2) := by
  rw [settled, h]
  rfl

theorem assign_settled (h : ∀ given ∈ (items ++ [item]).filterMap list?, given.1 = kind) :
    (settled items).assign item.s (.text item.value) = .ok (settled (items ++ [item])) := by
  cases hs : item.s with
  | help => exact absurd hs item.ne_help
  | delimiter => simp [Progress.assign, settled, list?, delimiter?, hs, Operands.close]
  | list kind' =>
    have hkind : kind' = kind := h (kind', item.value) (by simp [list?, hs])
    cases hlast : (items.filterMap list?).getLast? with
    | none => simp [Progress.assign, settled, list?, delimiter?, hs, hlast, Operands.close]
    | some given =>
      have hgiven : given.1 = kind := h given (by simp [List.mem_of_getLast? hlast])
      simp [Progress.assign, settled, list?, delimiter?, hs, hlast, hkind, hgiven, Operands.close]

theorem assign_settled_conflict (hs : item.s = .list kind') (hne : kind' ≠ kind)
    (hitems : items.filterMap list? ≠ []) (h : ∀ given ∈ items.filterMap list?, given.1 = kind) :
    (settled items).assign item.s (.text item.value) = .error (.misuse (.conflict (.list kind') (.list kind))) := by
  have hlist := settled_list (List.getLast?_eq_some_getLast hitems)
  rw [h _ (List.getLast_mem hitems)] at hlist
  simp only [Progress.assign, hs, hlist, if_neg hne.symm]

theorem assignAll_eq_settled (h : ∀ given ∈ items.filterMap list?, given.1 = kind) :
    assignAll {} items = .ok (settled items) := by
  -- The last item is given its value when those before it have been settled.
  induction items using List.reverseRecOn with
  | nil => rfl
  | append_singleton items item ih =>
    have hitems : ∀ given ∈ items.filterMap list?, given.1 = kind := by
      intro given hgiven
      exact h given (by simp [List.filterMap_append, hgiven])
    rw [assignAll_append_of_ok (ih hitems), assignAll_cons, assign_settled h]
    rfl

theorem assignAll_conflict {first other : ListKind × Text} {more : List (ListKind × Text)}
    (hlists : items.filterMap list? = first :: more) (hother : more.find? (·.1 ≠ first.1) = some other) :
    assignAll {} items = .error (.misuse (.conflict (.list other.1) (.list first.1))) := by
  obtain ⟨hne, between, behind, rfl, hbetween⟩ := List.find?_eq_some_iff_append.mp hother
  rw [← List.cons_append] at hlists
  obtain ⟨before, item, after, rfl, hbefore, hs⟩ := exists_of_filterMap_list? hlists
  have hsame : ∀ given ∈ before.filterMap list?, given.1 = first.1 := by
    rw [hbefore, List.forall_mem_cons]
    simpa using hbetween
  have hlast : before.filterMap list? ≠ [] := by simp [hbefore]
  rw [assignAll_append_of_ok (assignAll_eq_settled hsame), assignAll_cons,
    assign_settled_conflict hs (of_decide_eq_true hne) hlast hsame]

end

end Item

namespace Arguments

open Item

theorem parse_spelled (items : List Item) (names arguments : List Text) (h : SpelledAll items names arguments) :
    parse arguments = meaning items names := by
  rw [h.parse_eq, meaning]
  cases hlists : items.filterMap list? with
  | nil =>
    have hsame : ∀ given ∈ items.filterMap list?, given.1 = .bytes := by simp [hlists]
    rw [assignAll_eq_settled hsame]
    simp only [Progress.finish, settled, hlists, List.getLast?_nil, Option.map_none]
  | cons first more =>
    cases hother : more.find? (·.1 ≠ first.1) with
    | some other =>
      rw [assignAll_conflict hlists hother]
      simp only [hother]
    | none =>
      have hsame : ∀ given ∈ items.filterMap list?, given.1 = first.1 := by
        rw [hlists, List.forall_mem_cons]
        simpa using hother
      have hlast : (items.filterMap list?).getLast? = some (more.getLast?.getD first) := by
        rw [hlists, List.getLast?_cons]
      have hlist := settled_list hlast
      rw [hsame _ (List.mem_of_getLast? hlast)] at hlist
      rw [assignAll_eq_settled hsame]
      simp only [Progress.finish, hlist, hother]
      rfl

theorem parse_spelled_fields :
    let first : Item := ⟨.list .fields, ['1'], nofun, nofun, by decide, by decide⟩
    let second : Item := ⟨.delimiter, ['a', '=', ' '], nofun, nofun, by decide, by decide⟩
    let third : Item := ⟨.list .fields, ['2'], nofun, nofun, by decide, by decide⟩
    let arguments : List Text :=
      [['-', '-', 'f', '=', '1'], ['-', 'd', 'a', '=', ' '], ['-', 'f'], ['2'], ['-', '-'], ['-', '-'], ['-', 'x']]
    SpelledAll [first, second, third] [['-', '-'], ['-', 'x']] arguments
      ∧ parse arguments
          = .ok (ofList .fields (.text ['2']) (.text ['a', '=', ' ']) [['-', '-'], ['-', 'x']]) := by
  intro first second third arguments
  have hfirst : first.Spelled [['-', '-', 'f', '=', '1']] :=
    @Item.Spelled.longEquals first ['f'] ⟨['i', 'e', 'l', 'd', 's'], rfl⟩ nofun
  have hsecond : second.Spelled [['-', 'd', 'a', '=', ' ']] := .shortJoined
  have hthird : third.Spelled [['-', 'f'], ['2']] := .shortApart
  have h : SpelledAll [first, second, third] [['-', '-'], ['-', 'x']] arguments :=
    .cons hfirst (.cons hsecond (.cons hthird .names))
  refine ⟨h, ?_⟩
  rw [parse_spelled _ _ _ h]
  rfl

end Arguments

end Excerpt
