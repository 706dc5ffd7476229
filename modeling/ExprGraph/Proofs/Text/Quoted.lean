import ExprGraph.Text.Quoted

set_option autoImplicit false

namespace ExprGraph.Text

variable {c d : Char} {digits written : List Char} {m n : Nat}

theorem word_append_inj {p : Char → Prop} {word other rest rest' : List Char}
    (inside : ∀ c ∈ word, p c) (inside' : ∀ c ∈ other, p c) (outside : ∀ c ∈ rest.head?, ¬ p c)
    (outside' : ∀ c ∈ rest'.head?, ¬ p c) (same : word ++ rest = other ++ rest') :
    word = other ∧ rest = rest' := by
  induction word generalizing other with
  | nil => cases other with
    | nil => exact ⟨rfl, same⟩
    | cons d other =>
      obtain rfl : rest = d :: (other ++ rest') := same
      exact absurd (inside' d List.mem_cons_self) (outside d rfl)
  | cons c word ih => cases other with
    | nil =>
      obtain rfl : c :: (word ++ rest) = rest' := same
      exact absurd (inside c List.mem_cons_self) (outside' c rfl)
    | cons d other =>
      obtain ⟨rfl, later⟩ := List.cons.inj same
      obtain ⟨rfl, rests⟩ := ih (List.forall_mem_cons.mp inside).2
        (List.forall_mem_cons.mp inside').2 later
      exact ⟨rfl, rests⟩

theorem digitChar_inj (low : m < 16) (high : n < 16) (same : m.digitChar = n.digitChar) :
    m = n := by
  have all : ∀ i < 16, ∀ j < 16, Nat.digitChar i = Nat.digitChar j → i = j := by decide
  exact all m low n high same

theorem toDigits_inj (same : Nat.toDigits 16 m = Nat.toDigits 16 n) : m = n := by
  induction m using Nat.strongRecOn generalizing n with
  | ind m ih =>
    rw [Nat.toDigits_eq_if (n := m) (by decide), Nat.toDigits_eq_if (n := n) (by decide)] at same
    split at same <;> split at same
    case isTrue.isTrue small small' => exact digitChar_inj small small' (List.singleton_inj.mp same)
    case isTrue.isFalse => simpa [Nat.toDigits_ne_nil] using List.append_eq_singleton_iff.mp same.symm
    case isFalse.isTrue => simpa [Nat.toDigits_ne_nil] using List.append_eq_singleton_iff.mp same
    case isFalse.isFalse =>
      obtain ⟨front, last⟩ := List.append_singleton_inj.mp same
      have quotient := ih (m / 16) (by omega) front
      have remainder := digitChar_inj (Nat.mod_lt m (by decide)) (Nat.mod_lt n (by decide)) last
      omega

theorem not_mem_toDigits (noDigit : ∀ k : Nat, k.digitChar ≠ c) (n : Nat) :
    c ∉ Nat.toDigits 16 n := by
  induction n using Nat.strongRecOn with
  | ind n ih =>
    rw [Nat.toDigits_eq_if (by decide)]
    split
    case isTrue => simpa using (noDigit n).symm
    case isFalse large =>
      simp only [List.mem_append, List.mem_singleton, not_or]
      exact ⟨ih (n / 16) (by omega), (noDigit _).symm⟩

def marks : List (Char × Char) :=
  [('"', '"'), ('\\', '\\'), ('\n', 'n'), ('\r', 'r'), ('\t', 't'), ('\x00', '0')]

inductive Written : Char → List Char → Prop where
  | marked {c mark : Char} (listed : (c, mark) ∈ marks) : Written c ['\\', mark]
  | plain {c : Char} (noQuote : c ≠ '"') (noBackslash : c ≠ '\\') : Written c [c]
  | code (c : Char) : Written c ('\\' :: 'u' :: '\x7b' :: Nat.toDigits 16 c.toNat ++ ['\x7d'])

theorem written_escape (c : Char) : Written c (escape c) := by
  unfold escape
  split
  case h_6 noQuote noBackslash _ _ _ =>
    split
    case isTrue zero =>
      obtain rfl : c = '\x00' := Char.toNat_inj.mp zero
      exact .marked (by decide)
    case isFalse =>
      split
      · exact .plain noQuote noBackslash
      · exact .code c
  all_goals exact .marked (by decide)

theorem eq_of_marks {mark : Char} (left : (c, mark) ∈ marks) (right : (d, mark) ∈ marks) :
    c = d := by
  have once : ∀ p ∈ marks, ∀ q ∈ marks, p.2 = q.2 → p.1 = q.1 := by decide
  exact once _ left _ right rfl

theorem not_mem_marks_u (c : Char) : (c, 'u') ∉ marks := by
  have other : ∀ p ∈ marks, p.2 ≠ 'u' := by decide
  exact fun listed => other _ listed rfl

theorem Written.append_inj {other rest rest' : List Char} (left : Written c written)
    (right : Written d other) (same : written ++ rest = other ++ rest') : c = d ∧ rest = rest' := by
  have brace : ∀ k : Nat, k.digitChar ≠ '\x7d' := fun _ => Nat.digitChar_ne _ (by decide)
  cases left with
  | marked listed => cases right with
    | marked listed' =>
      simp only [List.cons_append, List.nil_append, List.cons.injEq, true_and] at same
      exact ⟨eq_of_marks listed (same.1 ▸ listed'), same.2⟩
    | plain _ noBackslash => exact absurd (List.cons.inj same).1.symm noBackslash
    | code =>
      simp only [List.cons_append, List.nil_append, List.cons.injEq, true_and] at same
      exact absurd (same.1 ▸ listed) (not_mem_marks_u _)
  | plain _ noBackslash => cases right with
    | marked => exact absurd (List.cons.inj same).1 noBackslash
    | plain => exact List.cons.inj same
    | code => exact absurd (List.cons.inj same).1 noBackslash
  | code => cases right with
    | marked listed =>
      simp only [List.cons_append, List.nil_append, List.cons.injEq, true_and] at same
      exact absurd (same.1 ▸ listed) (not_mem_marks_u _)
    | plain _ noBackslash => exact absurd (List.cons.inj same).1.symm noBackslash
    | code =>
      simp only [List.cons_append, List.append_assoc, List.nil_append, List.cons.injEq,
        true_and] at same
      have inside (n : Nat) : ∀ c ∈ Nat.toDigits 16 n, c ≠ '\x7d' := fun c member found =>
        not_mem_toDigits brace n (found ▸ member)
      obtain ⟨digits, rests⟩ := word_append_inj (inside _) (inside _) (by simp) (by simp) same
      exact ⟨Char.toNat_inj.mp (toDigits_inj digits), (List.cons.inj rests).2⟩

theorem Written.ne_quote {rest rest' : List Char} (isWritten : Written c written) :
    written ++ rest ≠ '"' :: rest' := by
  intro same
  cases isWritten with
  | marked => exact absurd (List.cons.inj same).1 (by decide)
  | plain noQuote => exact noQuote (List.cons.inj same).1
  | code => exact absurd (List.cons.inj same).1 (by decide)

theorem escapes_append_inj {s t rest rest' : List Char}
    (same : s.flatMap escape ++ '"' :: rest = t.flatMap escape ++ '"' :: rest') :
    s = t ∧ rest = rest' := by
  induction s generalizing t with
  | nil => cases t with
    | nil => exact ⟨rfl, (List.cons.inj same).2⟩
    | cons d t =>
      rw [List.flatMap_cons, List.append_assoc] at same
      exact absurd same.symm (written_escape d).ne_quote
  | cons c s ih => cases t with
    | nil =>
      rw [List.flatMap_cons, List.append_assoc] at same
      exact absurd same (written_escape c).ne_quote
    | cons d t =>
      rw [List.flatMap_cons, List.flatMap_cons, List.append_assoc, List.append_assoc] at same
      obtain ⟨rfl, later⟩ := (written_escape c).append_inj (written_escape d) same
      obtain ⟨rfl, rests⟩ := ih later
      exact ⟨rfl, rests⟩

theorem quoteChars_append_inj {s t rest rest' : List Char}
    (same : quoteChars s ++ rest = quoteChars t ++ rest') : s = t ∧ rest = rest' := by
  simp only [quoteChars, List.cons_append, List.append_assoc, List.nil_append,
    List.cons.injEq, true_and] at same
  exact escapes_append_inj same

end ExprGraph.Text
