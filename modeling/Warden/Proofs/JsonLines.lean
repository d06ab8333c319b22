import Mathlib.Data.List.Infix
import Warden.Diagnostic.Basic

/-!
# One diagnostic per line

A diagnostic is written as one line of JSON, and the line says which diagnostic it is
(`Diagnostic.json_lines_unambiguous`).

Escaping is a prefix code: if two escaped characters start the same text, they are the same
(`Json.escape_append_inj`), and none of them starts with a quote. So a quoted string ends where it
ends in every text that it starts (`Json.quote_append_inj`), whatever it contains. A number ends
before the first character that is no digit. Hence the fields of a record can be told apart one
after the other (`Json.printFields_inj`).
-/

namespace Warden

namespace Json

variable {c d : Char} {x y : List Char}

/-! ### Strings -/

/-- The characters that are escaped. -/
def specials : List Char :=
  '"' :: '\\' :: (List.range 32).map Char.ofNat

theorem toNat_ge_of_notMem_specials (h : c ∉ specials) : 32 ≤ c.toNat := by
  by_contra hlt
  refine h (List.mem_cons_of_mem _ (List.mem_cons_of_mem _ (List.mem_map.mpr ⟨c.toNat, ?_, ?_⟩)))
  · exact List.mem_range.mpr (Nat.lt_of_not_le hlt)
  · exact Char.ofNat_toNat c

theorem escape_of_notMem_specials (h : c ∉ specials) : escape c = [c] := by
  have hlarge := toNat_ge_of_notMem_specials h
  have hne : ∀ d ∈ specials, c ≠ d := fun d hd heq => h (heq ▸ hd)
  rw [escape, if_neg (hne _ (by decide)), if_neg (hne _ (by decide)), if_neg (hne _ (by decide)),
    if_neg (hne _ (by decide)), if_neg (hne _ (by decide)), if_neg (by omega), if_neg (by omega),
    if_neg (by omega)]

/-- The special characters have escapes of their own, none of which starts another. -/
theorem escape_specials : ∀ c ∈ specials, (escape c).head? = some '\\' ∧
    (∀ x ∈ escape c, 32 ≤ x.toNat) ∧ ∀ d ∈ specials, escape c <+: escape d → c = d := by
  have hall : specials.all (fun c => (escape c).head? == some '\\' &&
      (escape c).all (32 ≤ ·.toNat) &&
        specials.all fun d => !(escape c).isPrefixOf (escape d) || c == d) = true := by
    decide +kernel
  simpa [or_iff_not_imp_left, and_assoc] using hall

theorem toNat_ge_of_mem_escape {z : Char} (h : z ∈ escape c) : 32 ≤ z.toNat := by
  by_cases hc : c ∈ specials
  · exact (escape_specials c hc).2.1 z h
  · rw [escape_of_notMem_specials hc, List.mem_singleton] at h
    exact h ▸ toNat_ge_of_notMem_specials hc

theorem head?_escape (c : Char) : (escape c).head? = some (if c ∈ specials then '\\' else c) := by
  by_cases hc : c ∈ specials
  · rw [if_pos hc, (escape_specials c hc).1]
  · rw [if_neg hc, escape_of_notMem_specials hc, List.head?_singleton]

/-- Escaping is a prefix code. -/
theorem eq_of_prefixed_escape (h : escape c <+: escape d) : c = d := by
  have hhead : (escape c).head? = (escape d).head? := by
    obtain ⟨t, ht⟩ := h
    rw [← ht, List.head?_append, head?_escape, Option.some_or]
  rw [head?_escape, head?_escape, Option.some.injEq] at hhead
  by_cases hc : c ∈ specials <;> by_cases hd : d ∈ specials
  · exact (escape_specials c hc).2.2 d hd h
  · rw [if_pos hc, if_neg hd] at hhead
    exact absurd (by decide : '\\' ∈ specials) (hhead ▸ hd)
  · rw [if_neg hc, if_pos hd] at hhead
    exact absurd (by decide : '\\' ∈ specials) (hhead ▸ hc)
  · rwa [if_neg hc, if_neg hd] at hhead

theorem escape_append_inj (h : escape c ++ x = escape d ++ y) : c = d ∧ x = y := by
  have heq : c = d := by
    rcases List.prefix_or_prefix_of_prefix ⟨x, rfl⟩ ⟨y, h.symm⟩ with hpre | hpre
    · exact eq_of_prefixed_escape hpre
    · exact (eq_of_prefixed_escape hpre).symm
  subst heq
  exact ⟨rfl, List.append_cancel_left h⟩

theorem escape_append_ne (c : Char) : escape c ++ x ≠ '"' :: y := by
  intro h
  have hhead := congrArg List.head? h
  rw [List.head?_append, head?_escape, Option.some_or, List.head?_cons, Option.some.injEq] at hhead
  split at hhead
  · cases hhead
  next hc => exact hc (hhead ▸ by decide)

theorem escapes_append_inj {cs ds : List Char}
    (h : cs.flatMap escape ++ '"' :: x = ds.flatMap escape ++ '"' :: y) : cs = ds ∧ x = y := by
  induction cs generalizing ds with
  | nil =>
    cases ds with
    | nil => simpa using h
    | cons d ds =>
      rw [List.flatMap_cons, List.append_assoc] at h
      exact absurd h.symm (escape_append_ne d)
  | cons c cs ih =>
    rw [List.flatMap_cons, List.append_assoc] at h
    cases ds with
    | nil => exact absurd h (escape_append_ne c)
    | cons d ds =>
      rw [List.flatMap_cons, List.append_assoc] at h
      obtain ⟨rfl, hrest⟩ := escape_append_inj h
      obtain ⟨rfl, hxy⟩ := ih hrest
      exact ⟨rfl, hxy⟩

/-- A quoted string ends where it ends in every text that it starts. -/
theorem quote_append_inj {s t : String} (h : quote s ++ x = quote t ++ y) : s = t ∧ x = y := by
  simp only [quote, List.cons_append, List.append_assoc, List.nil_append, List.cons.injEq,
    true_and] at h
  obtain ⟨hst, hxy⟩ := escapes_append_inj h
  exact ⟨String.toList_inj.mp hst, hxy⟩

theorem toNat_ge_of_mem_quote {s : String} {z : Char} (h : z ∈ quote s) : 32 ≤ z.toNat := by
  simp only [quote, List.mem_cons, List.mem_append, List.mem_flatMap, List.not_mem_nil,
    or_false] at h
  rcases h with (rfl | ⟨c, -, hz⟩) | rfl
  · decide
  · exact toNat_ge_of_mem_escape hz
  · decide

/-! ### Numbers -/

/-- The digits of a number end before the first character that is no digit. -/
theorem takeWhile_natDigits (n : Nat) (hx : ∀ c ∈ x.head?, c.isDigit = false) :
    (natDigits n ++ x).takeWhile (·.isDigit) = natDigits n := by
  rw [natDigits, List.takeWhile_append_of_pos fun c hc =>
    Nat.isDigit_of_mem_toDigits (by decide) (by decide) hc]
  cases x with
  | nil => simp
  | cons c x => simp [hx c rfl]

theorem natDigits_append_inj {m n : Nat} (hx : ∀ c ∈ x.head?, c.isDigit = false)
    (hy : ∀ c ∈ y.head?, c.isDigit = false) (h : natDigits m ++ x = natDigits n ++ y) :
    m = n ∧ x = y := by
  have hdigits : natDigits m = natDigits n := by
    rw [← takeWhile_natDigits m hx, h, takeWhile_natDigits n hy]
  have hmn : m = n := by
    rw [← Nat.ofDigitChars_ten_toDigits (n := m), ← Nat.ofDigitChars_ten_toDigits (n := n)]
    exact congrArg (Nat.ofDigitChars 10 · 0) hdigits
  exact ⟨hmn, List.append_cancel_left (hdigits ▸ h)⟩

/-! ### Records -/

/-- A value that is a string or a natural number. -/
inductive IsSimple : Json → Prop where
  | str (s : String) : IsSimple (.str s)
  | nat (n : Nat) : IsSimple (.nat n)

theorem print_append_inj {v w : Json} (hv : v.IsSimple) (hw : w.IsSimple)
    (hx : ∀ c ∈ x.head?, c.isDigit = false) (hy : ∀ c ∈ y.head?, c.isDigit = false)
    (h : v.print ++ x = w.print ++ y) : v = w ∧ x = y := by
  -- A string starts with a quote and a number with a digit.
  have hmixed : ∀ {s : String} {n : Nat} {x y : List Char},
      (∀ c ∈ y.head?, c.isDigit = false) → quote s ++ x ≠ natDigits n ++ y := by
    intro s n x y hy heq
    have hnil : [] = natDigits n := by
      rw [← takeWhile_natDigits n hy, ← heq]
      simp [quote]
    exact Nat.toDigits_ne_nil hnil.symm
  cases hv with
  | str s =>
    cases hw with
    | str t =>
      obtain ⟨rfl, hxy⟩ := quote_append_inj h
      exact ⟨rfl, hxy⟩
    | nat n => exact absurd h (hmixed hy)
  | nat m =>
    cases hw with
    | str t => exact absurd h.symm (hmixed hx)
    | nat n =>
      obtain ⟨rfl, hxy⟩ := natDigits_append_inj hx hy h
      exact ⟨rfl, hxy⟩

theorem head?_printFields (fs : List (String × Json)) :
    ∀ c ∈ (printFields fs).head?, c.isDigit = false := by
  cases fs with
  | nil => simp [printFields]
  | cons f fs => simp [printFields]

/-- The fields of a record can be told apart one after the other. -/
theorem printFields_inj {fs gs : List (String × Json)} (hfs : ∀ f ∈ fs, f.2.IsSimple)
    (hgs : ∀ g ∈ gs, g.2.IsSimple) (h : printFields fs = printFields gs) : fs = gs := by
  induction fs generalizing gs with
  | nil =>
    cases gs with
    | nil => rfl
    | cons g gs => simp [printFields] at h
  | cons f fs ih =>
    cases gs with
    | nil => simp [printFields] at h
    | cons g gs =>
      obtain ⟨hf, hfs⟩ := List.forall_mem_cons.mp hfs
      obtain ⟨hg, hgs⟩ := List.forall_mem_cons.mp hgs
      simp only [printFields, List.cons_append, List.append_assoc, List.cons.injEq, true_and] at h
      obtain ⟨hkey, hrest⟩ := quote_append_inj h
      rw [List.cons.injEq] at hrest
      obtain ⟨hvalue, hrest⟩ := print_append_inj hf hg (head?_printFields fs)
        (head?_printFields gs) hrest.2
      rw [Prod.ext hkey hvalue, ih hfs hgs hrest]

theorem toNat_ge_of_mem_printFields {fs : List (String × Json)} (hfs : ∀ f ∈ fs, f.2.IsSimple) :
    ∀ z ∈ printFields fs, 32 ≤ z.toNat := by
  induction fs with
  | nil => simp [printFields]
  | cons f fs ih =>
    obtain ⟨hf, hfs⟩ := List.forall_mem_cons.mp hfs
    have hvalue : ∀ z ∈ f.2.print, 32 ≤ z.toNat := by
      obtain ⟨key, value⟩ := f
      cases hf with
      | str s => exact fun z hz => toNat_ge_of_mem_quote hz
      | nat n =>
        intro z hz
        have hdigit := Nat.isDigit_of_mem_toDigits (by decide) (by decide) hz
        simp only [Char.isDigit, Bool.and_eq_true, decide_eq_true_eq] at hdigit
        have : '0'.toNat ≤ z.toNat := hdigit.1
        exact Nat.le_trans (by decide) this
    intro z hz
    simp only [printFields, List.cons_append, List.append_assoc, List.mem_cons,
      List.mem_append] at hz
    rcases hz with rfl | hz | rfl | hz | hz
    · decide
    · exact toNat_ge_of_mem_quote hz
    · decide
    · exact hvalue z hz
    · exact ih hfs z hz

end Json

theorem Severity.name_injective : Function.Injective Severity.name := by
  intro a b h
  cases a <;> cases b <;> simp_all [Severity.name]

namespace Diagnostic

/-- The record starts with the tag, and its values are strings and numbers. -/
theorem exists_toJson_eq (d : Diagnostic) : ∃ fs,
    d.toJson = .obj (("error_type", .str d.tag) :: fs) ∧
      ∀ f ∈ ("error_type", .str d.tag) :: fs, f.2.IsSimple := by
  refine ⟨_, rfl, ?_⟩
  cases d.note <;> cases d.help <;> cases d.lineText <;> simp [Json.IsSimple.str, Json.IsSimple.nat]

/-- The record says all of the diagnostic. -/
theorem toJson_injective : Function.Injective toJson := by
  intro d e h
  have hparts : ∀ d : Diagnostic, ["error_type", "severity", "file_path", "line", "col", "message",
        "note", "help", "line_text", "token_length"].map (d.toJson.field? ·) =
      [some (.str d.tag), some (.str d.severity.name), some (.str d.filePath), some (.nat d.line),
        some (.nat d.column), some (.str d.message), d.note.map .str, d.help.map .str,
        d.lineText.map .str, some (.nat d.tokenLength)] := by
    intro d
    cases hnote : d.note <;> cases hhelp : d.help <;> cases hline : d.lineText <;>
      simp [toJson, Json.objOf, Json.field?, List.lookup_cons, hnote, hhelp, hline]
  have heq := hparts e
  rw [← h, hparts d] at heq
  have hstr : Function.Injective (Option.map Json.str) :=
    Option.map_injective fun _ _ => Json.str.inj
  simp only [List.cons.injEq, Option.some.injEq, Json.str.injEq, Json.nat, Json.int.injEq,
    Int.natCast_inj, hstr.eq_iff, Severity.name_injective.eq_iff, and_true] at heq
  obtain ⟨htag, hseverity, hpath, hline, hcolumn, hmessage, hnote, hhelp, htext, hlength⟩ := heq
  cases d
  cases e
  simp_all

/-- **JSON lines are unambiguous.** No diagnostic is written with a line break, or with any other
control character, and two diagnostics that are written alike are the same. -/
theorem json_lines_unambiguous :
    (∀ d : Diagnostic, ∀ c ∈ d.toJsonLine.toList, 32 ≤ c.toNat) ∧
      Function.Injective toJsonLine := by
  refine ⟨fun d z hz => ?_, fun d e h => toJson_injective ?_⟩
  · obtain ⟨fs, hd, hsimple⟩ := exists_toJson_eq d
    rw [toJsonLine, Json.compact, String.toList_ofList, hd, Json.print] at hz
    rcases List.mem_cons.mp hz with rfl | hz
    · decide
    · exact Json.toNat_ge_of_mem_printFields hsimple z (List.mem_cons_of_mem _ hz)
  · obtain ⟨fs, hd, hfs⟩ := exists_toJson_eq d
    obtain ⟨gs, he, hgs⟩ := exists_toJson_eq e
    rw [toJsonLine, toJsonLine, Json.compact, Json.compact, String.ofList_inj, hd, he, Json.print,
      Json.print] at h
    have hfields : Json.printFields (("error_type", .str d.tag) :: fs) =
        Json.printFields (("error_type", .str e.tag) :: gs) :=
      congrArg (',' :: ·) (List.cons.inj h).2
    rw [hd, he, Json.printFields_inj hfs hgs hfields]

end Diagnostic
end Warden
