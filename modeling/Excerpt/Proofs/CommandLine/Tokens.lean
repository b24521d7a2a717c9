import Excerpt.CommandLine.Token

/-!
This module contains how tokens come from arguments: one from each, in order. Only the first `--` is a terminator, and
all tokens behind it are operands.
-/

namespace Excerpt

def terminatorText : Text := ['-', '-']

namespace Token

/--
A token stands for an argument. The value that is attached to a switch is the end of the argument.
-/
def Of (argument : Text) : Token → Prop
  | .operand text => text = argument
  | .terminator => argument = terminatorText
  | .switch _ _ value => ∀ text ∈ value, text <:+ argument
  | .unknown text => text = argument

variable {argument : Text} {arguments : List Text} {token : Token} {tokens : List Token}

theorem of_ofDashed : (ofDashed argument).Of argument := by
  unfold ofDashed
  split
  . rfl
  . rfl

theorem isSuffix_of_nameAndValue {value : Text} (h : (nameAndValue argument).2 = some value) : value <:+ argument := by
  unfold nameAndValue at h
  split at h
  . cases h
  . next name text hdivide =>
    cases h
    rw [← Text.append_of_divideAt hdivide]
    exact (List.suffix_cons '=' value).trans (List.suffix_append _ _)

theorem classify_dashed (c : Char) (rest : Text) :
    classify ('-' :: c :: rest)
      = match ofSpelling? (nameAndValue ('-' :: c :: rest)).1 with
        | some (s, spelling) => .ok (.switch s spelling (nameAndValue ('-' :: c :: rest)).2)
        | none =>
          if c = '-' then
            match Switch.completions (nameAndValue ('-' :: c :: rest)).1 with
            | [] => .ok (ofDashed ('-' :: c :: rest))
            | [s] => .ok (.switch s .long (nameAndValue ('-' :: c :: rest)).2)
            | candidates => .error (.ambiguous ('-' :: c :: rest) candidates)
          else
            match Switch.ofLetter? c with
            | some s => .ok (.switch s .short (some rest))
            | none => .ok (ofDashed ('-' :: c :: rest)) := rfl

theorem classify_of_head (h : ∀ c rest, argument ≠ '-' :: c :: rest) : classify argument = .ok (.operand argument) := by
  rw [classify]
  exact fun c rest => h c rest

theorem of_classify (h : classify argument = .ok token) : token.Of argument := by
  by_cases hhead : ∃ c rest, argument = '-' :: c :: rest
  . obtain ⟨c, rest, rfl⟩ := hhead
    rw [classify_dashed] at h
    split at h
    . cases h
      exact fun _ => isSuffix_of_nameAndValue
    . split at h
      . split at h
        . cases h
          exact of_ofDashed
        . cases h
          exact fun _ => isSuffix_of_nameAndValue
        . cases h
      . split at h
        . cases h
          rintro _ ⟨⟩
          exact (List.suffix_cons c rest).trans (List.suffix_cons '-' _)
        . cases h
          exact of_ofDashed
  . rw [classify_of_head fun c rest heq => hhead ⟨c, rest, heq⟩] at h
    cases h
    rfl

theorem classifyAll_cons_eq_ok (h : classifyAll (argument :: arguments) = .ok tokens) :
    argument = terminatorText ∧ tokens = .terminator :: arguments.map .operand
      ∨ argument ≠ terminatorText
        ∧ ∃ token more, classify argument = .ok token ∧ classifyAll arguments = .ok more ∧ tokens = token :: more := by
  rw [classifyAll] at h
  split at h
  . next hterminator => exact .inl ⟨hterminator, (Except.ok.inj h).symm⟩
  . next hterminator =>
    cases hclassify : classify argument with
    | error e =>
      rw [hclassify] at h
      cases h
    | ok token =>
      cases hmore : classifyAll arguments with
      | error e =>
        rw [hclassify, hmore] at h
        cases h
      | ok more =>
        rw [hclassify, hmore] at h
        exact .inr ⟨hterminator, token, more, rfl, rfl, (Except.ok.inj h).symm⟩

theorem classifyAll_eq_nil (h : classifyAll arguments = .ok []) : arguments = [] := by
  cases arguments with
  | nil => rfl
  | cons argument arguments =>
    rcases classifyAll_cons_eq_ok h with ⟨_, heq⟩ | ⟨_, token, more, _, _, heq⟩
    . cases heq
    . cases heq

theorem classifyAll_eq_terminator_cons (h : classifyAll arguments = .ok (.terminator :: tokens)) :
    ∃ more, arguments = terminatorText :: more ∧ tokens = more.map .operand := by
  cases arguments with
  | nil => cases h
  | cons argument more =>
    rcases classifyAll_cons_eq_ok h with ⟨rfl, heq⟩ | ⟨hne, token, rest, hclassify, _, heq⟩
    . cases heq
      exact ⟨more, rfl, rfl⟩
    . cases heq
      exact absurd (of_classify hclassify) hne

theorem classifyAll_eq_cons (h : classifyAll arguments = .ok (token :: tokens)) (htoken : token ≠ .terminator) :
    ∃ argument more, arguments = argument :: more
      ∧ argument ≠ terminatorText ∧ token.Of argument ∧ classifyAll more = .ok tokens := by
  cases arguments with
  | nil => cases h
  | cons argument more =>
    rcases classifyAll_cons_eq_ok h with ⟨_, heq⟩ | ⟨hne, token, rest, hclassify, hmore, heq⟩
    . cases heq
      exact absurd rfl htoken
    . cases heq
      exact ⟨argument, more, rfl, hne, of_classify hclassify, hmore⟩

theorem exists_of_mem_classifyAll (h : classifyAll arguments = .ok tokens) (htoken : token ∈ tokens) :
    ∃ argument ∈ arguments, token.Of argument := by
  induction arguments generalizing tokens with
  | nil =>
    cases h
    cases htoken
  | cons argument arguments ih =>
    rcases classifyAll_cons_eq_ok h with ⟨hterminator, rfl⟩ | ⟨_, first, more, hclassify, hmore, rfl⟩
    . cases htoken with
      | head => exact ⟨argument, .head _, hterminator⟩
      | tail _ htoken =>
        obtain ⟨text, htext, rfl⟩ := List.mem_map.mp htoken
        exact ⟨text, .tail _ htext, rfl⟩
    . cases htoken with
      | head => exact ⟨argument, .head _, of_classify hclassify⟩
      | tail _ htoken =>
        obtain ⟨argument', hargument, hof⟩ := ih hmore htoken
        exact ⟨argument', .tail _ hargument, hof⟩

end Token

end Excerpt
