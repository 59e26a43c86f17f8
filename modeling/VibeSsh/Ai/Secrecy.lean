import VibeSsh.Ai.Sanitizer

/-! # What sanitised JSON gives away

Two values that differ only where a secret stands, under a secret key or right after a secret flag,
should sanitise to the same value. The loop over an array forgets a flag it has just redacted, so a
flag standing where another flag's value is expected leaves the element after it in the open. -/

namespace VibeSsh.Ai

open Lib

variable (u : CharClass)

def Json.isScalar : Json → Bool
  | .num _ => true
  | .str _ => true
  | _ => false

/-! ## Differing in secrets only -/

mutual

inductive Differ : Json → Json → Prop
  | same (v : Json) : Differ v v
  | arr {xs ys : List Json} : DifferItems false xs ys → Differ (.arr xs) (.arr ys)
  | obj {ms ns : List (Text × Json)} : DifferMembers ms ns → Differ (.obj ms) (.obj ns)

/-- Element by element; `afterFlag` holds if in both arrays the element before is a secret flag. -/
inductive DifferItems : Bool → List Json → List Json → Prop
  | nil {afterFlag : Bool} : DifferItems afterFlag [] []
  | value {x y : Json} {xs ys : List Json} :
    DifferItems (isSecretFlag u x && isSecretFlag u y) xs ys → DifferItems true (x :: xs) (y :: ys)
  | item {afterFlag : Bool} {x y : Json} {xs ys : List Json} : Differ x y →
    DifferItems (isSecretFlag u x && isSecretFlag u y) xs ys →
      DifferItems afterFlag (x :: xs) (y :: ys)

inductive DifferMembers : List (Text × Json) → List (Text × Json) → Prop
  | nil : DifferMembers [] []
  | secret {key : Text} {x y : Json} {ms ns : List (Text × Json)} : isSecretKey u key = true →
    x.isScalar = true → y.isScalar = true → DifferMembers ms ns →
      DifferMembers ((key, x) :: ms) ((key, y) :: ns)
  | member {key : Text} {x y : Json} {ms ns : List (Text × Json)} : Differ x y →
    DifferMembers ms ns → DifferMembers ((key, x) :: ms) ((key, y) :: ns)

end

/-! ## Flags in the place of a value -/

mutual

/-- Some array that is not itself redacted holds a secret flag in the place of another's value,
with an element after it. -/
def chainsFlags : Json → Bool
  | .obj members => membersChain members
  | .arr items => itemsChain false items
  | _ => false

def itemsChain (redactNext : Bool) : List Json → Bool
  | [] => false
  | item :: rest =>
    if redactNext then (isSecretFlag u item && !rest.isEmpty) || itemsChain false rest
    else chainsFlags item || itemsChain (isSecretFlag u item) rest

def membersChain : List (Text × Json) → Bool
  | [] => false
  | (key, child) :: rest => (!isSecretKey u key && chainsFlags child) || membersChain rest

end

variable {u}

theorem DifferItems.refl (afterFlag : Bool) (xs : List Json) : DifferItems u afterFlag xs xs := by
  induction xs generalizing afterFlag with
  | nil => exact .nil
  | cons x xs ih => exact .item (.same x) (ih _)

theorem DifferMembers.refl (ms : List (Text × Json)) : DifferMembers u ms ms := by
  induction ms with
  | nil => exact .nil
  | cons m ms ih => exact .member (.same m.2) ih

/-- Values that differ in secrets only arm the next element alike. -/
theorem Differ.isSecretFlag_eq {v w : Json} (h : Differ u v w) :
    isSecretFlag u v = isSecretFlag u w := by
  cases h <;> rfl

theorem DifferItems.eq_nil {afterFlag : Bool} {ys : List Json}
    (h : DifferItems u afterFlag [] ys) : ys = [] := by
  cases h
  rfl

/-! ## Without such a flag nothing shows -/

/-- A redacted element shows nothing, and no flag of its own can arm the next one. -/
theorem sanitizeItems_redact_eq {x y : Json} {xs ys : List Json}
    (hx : itemsChain u true (x :: xs) = false) (hnil : xs = [] → ys = [])
    (ih : isSecretFlag u x = false → itemsChain u false xs = false →
      sanitizeItems u false xs = sanitizeItems u false ys) :
    sanitizeItems u true (x :: xs) = sanitizeItems u true (y :: ys) := by
  simp only [itemsChain, if_true, Bool.or_eq_false_iff, Bool.and_eq_false_iff] at hx
  simp only [sanitizeItems, if_true]
  obtain ⟨hflag | hempty, hrest⟩ := hx
  · rw [ih hflag hrest]
  · obtain rfl : xs = [] := by simpa using hempty
    rw [hnil rfl]

mutual

theorem Differ.sanitize_eq {v w : Json} (h : Differ u v w) (hv : chainsFlags u v = false) :
    sanitizeJson u v = sanitizeJson u w := by
  cases h with
  | same => rfl
  | arr hitems =>
    simp only [sanitizeJson, Json.arr.injEq]
    exact hitems.sanitize_eq (fun h => by cases h) (by simpa only [chainsFlags] using hv)
  | obj hmembers =>
    simp only [sanitizeJson, Json.obj.injEq]
    exact hmembers.sanitize_eq (by simpa only [chainsFlags] using hv)

/-- Both loops carry the same flag: an element allowed to differ freely is one they redact. -/
theorem DifferItems.sanitize_eq {afterFlag redactNext : Bool} {xs ys : List Json}
    (h : DifferItems u afterFlag xs ys) (hnext : afterFlag = true → redactNext = true)
    (hxs : itemsChain u redactNext xs = false) :
    sanitizeItems u redactNext xs = sanitizeItems u redactNext ys := by
  cases h with
  | nil => rfl
  | value hrest =>
    obtain rfl := hnext rfl
    refine sanitizeItems_redact_eq hxs (fun hnil => ?_) fun hflag hchain => ?_
    · subst hnil
      exact hrest.eq_nil
    · exact hrest.sanitize_eq (by simp [hflag]) hchain
  | item hxy hrest =>
    cases redactNext with
    | true =>
      refine sanitizeItems_redact_eq hxs (fun hnil => ?_) fun hflag hchain => ?_
      · subst hnil
        exact hrest.eq_nil
      · exact hrest.sanitize_eq (by simp [hflag]) hchain
    | false =>
      simp only [itemsChain, Bool.false_eq_true, if_false, Bool.or_eq_false_iff] at hxs
      simp only [sanitizeItems, Bool.false_eq_true, if_false]
      rw [hxy.sanitize_eq hxs.1, ← hxy.isSecretFlag_eq,
        hrest.sanitize_eq (fun h => (Bool.and_eq_true_iff.mp h).1) hxs.2]

theorem DifferMembers.sanitize_eq {ms ns : List (Text × Json)} (h : DifferMembers u ms ns)
    (hms : membersChain u ms = false) : sanitizeMembers u ms = sanitizeMembers u ns := by
  cases h with
  | nil => rfl
  | secret hkey _ _ hrest =>
    simp only [membersChain, Bool.or_eq_false_iff] at hms
    simp only [sanitizeMembers, hkey, if_true, hrest.sanitize_eq hms.2]
  | @member key x y ms ns hxy hrest =>
    simp only [membersChain, Bool.or_eq_false_iff] at hms
    simp only [sanitizeMembers, hrest.sanitize_eq hms.2]
    cases hkey : isSecretKey u key with
    | true => rfl
    | false =>
      have hx : chainsFlags u x = false := by simpa [hkey] using hms.1
      rw [hxy.sanitize_eq hx]

end

/-! ## With one, something does -/

/-- Of every value there is another that sanitises differently. -/
theorem exists_sanitize_ne (v : Json) : ∃ w, sanitizeJson u v ≠ sanitizeJson u w := by
  by_cases h : sanitizeJson u v = .null
  · exact ⟨.bool true, by simp [h, sanitizeJson]⟩
  · exact ⟨.null, by simpa [sanitizeJson] using h⟩

mutual

theorem exists_differ_of_chains {v : Json} (hv : chainsFlags u v = true) :
    ∃ w, Differ u v w ∧ sanitizeJson u v ≠ sanitizeJson u w := by
  match v, hv with
  | .arr items, hv =>
    simp only [chainsFlags] at hv
    obtain ⟨ys, hys, hne⟩ := exists_differItems_of_chain false hv
    exact ⟨.arr ys, .arr hys, by simpa only [sanitizeJson, ne_eq, Json.arr.injEq] using hne⟩
  | .obj members, hv =>
    simp only [chainsFlags] at hv
    obtain ⟨ns, hns, hne⟩ := exists_differMembers_of_chain hv
    exact ⟨.obj ns, .obj hns, by simpa only [sanitizeJson, ne_eq, Json.obj.injEq] using hne⟩

theorem exists_differItems_of_chain (afterFlag : Bool) {redactNext : Bool} {xs : List Json}
    (hxs : itemsChain u redactNext xs = true) :
    ∃ ys, DifferItems u afterFlag xs ys ∧
      sanitizeItems u redactNext xs ≠ sanitizeItems u redactNext ys := by
  match redactNext, xs, hxs with
  | true, item :: rest, hxs =>
    simp only [itemsChain, if_true, Bool.or_eq_true, Bool.and_eq_true] at hxs
    rcases hxs with ⟨hflag, hrest⟩ | hxs
    · match rest, hrest with
      | e :: rest, _ =>
        obtain ⟨e', he⟩ := exists_sanitize_ne (u := u) e
        refine ⟨item :: e' :: rest, .item (.same item) ?_, ?_⟩
        · rw [hflag]
          exact .value (.refl _ rest)
        · simp only [sanitizeItems, if_true, Bool.false_eq_true, if_false, ne_eq, List.cons.injEq,
            true_and, not_and]
          exact fun h => absurd h he
    · obtain ⟨ys, hys, hne⟩ :=
        exists_differItems_of_chain (isSecretFlag u item && isSecretFlag u item) hxs
      refine ⟨item :: ys, .item (.same item) hys, ?_⟩
      simpa only [sanitizeItems, if_true, ne_eq, List.cons.injEq, true_and] using hne
  | false, item :: rest, hxs =>
    simp only [itemsChain, Bool.false_eq_true, if_false, Bool.or_eq_true] at hxs
    rcases hxs with hitem | hrest
    · obtain ⟨y, hy, hne⟩ := exists_differ_of_chains hitem
      refine ⟨y :: rest, .item hy (.refl _ rest), ?_⟩
      simp only [sanitizeItems, Bool.false_eq_true, if_false, ne_eq, List.cons.injEq, not_and]
      exact fun h => absurd h hne
    · obtain ⟨ys, hys, hne⟩ :=
        exists_differItems_of_chain (isSecretFlag u item && isSecretFlag u item) hrest
      refine ⟨item :: ys, .item (.same item) hys, ?_⟩
      simpa only [sanitizeItems, Bool.false_eq_true, if_false, ne_eq, List.cons.injEq,
        true_and] using hne

theorem exists_differMembers_of_chain {ms : List (Text × Json)} (hms : membersChain u ms = true) :
    ∃ ns, DifferMembers u ms ns ∧ sanitizeMembers u ms ≠ sanitizeMembers u ns := by
  match ms, hms with
  | (key, child) :: rest, hms =>
    simp only [membersChain, Bool.or_eq_true, Bool.and_eq_true, Bool.not_eq_true'] at hms
    rcases hms with ⟨hkey, hchild⟩ | hrest
    · obtain ⟨y, hy, hne⟩ := exists_differ_of_chains hchild
      refine ⟨(key, y) :: rest, .member hy (.refl rest), ?_⟩
      simp only [sanitizeMembers, hkey, Bool.false_eq_true, if_false, ne_eq, List.cons.injEq,
        Prod.mk.injEq, true_and, not_and]
      exact fun h => absurd h hne
    · obtain ⟨ns, hns, hne⟩ := exists_differMembers_of_chain hrest
      refine ⟨(key, child) :: ns, .member (.same child) hns, ?_⟩
      simpa only [sanitizeMembers, ne_eq, List.cons.injEq, true_and] using hne

end

/-- **Secrets stay out of a sanitised value unless flags are chained.** `--password --token s3cret`
gives `s3cret` away. -/
theorem sanitize_hides_secrets_iff (v : Json) :
    (∀ w, Differ u v w → sanitizeJson u v = sanitizeJson u w) ↔ chainsFlags u v = false := by
  constructor
  · intro h
    by_contra hv
    obtain ⟨w, hw, hne⟩ := exists_differ_of_chains (Bool.eq_true_of_not_eq_false hv)
    exact hne (h w hw)
  · exact fun hv w hw => hw.sanitize_eq hv

/-- A command with a secret flag in the place of another's value. -/
def commandWith (value : Text) : Json :=
  .arr [.str "--password", .str "--token", .str value]

theorem sanitize_commandWith {value : Text}
    (hvalue : sanitizeText CharClass.asciiOnly value = value) :
    sanitizeJson CharClass.asciiOnly (commandWith value) =
      .arr [.str "--password", .str redacted, .str value] := by
  have harm : isSecretFlag CharClass.asciiOnly (.str "--password") = true := by decide
  have hkept : sanitizeText CharClass.asciiOnly "--password" = "--password" :=
    sanitizeText_plain _ (by decide) (by decide) (by decide)
  simp only [commandWith, sanitizeJson, sanitizeItems, harm, hkept, hvalue, if_true,
    Bool.false_eq_true, if_false]

theorem chained_flag_leaks :
    Differ CharClass.asciiOnly (commandWith "s3cret") (commandWith "hunter2") ∧
    sanitizeJson CharClass.asciiOnly (commandWith "s3cret") =
      .arr [.str "--password", .str redacted, .str "s3cret"] ∧
    sanitizeJson CharClass.asciiOnly (commandWith "s3cret") ≠
      sanitizeJson CharClass.asciiOnly (commandWith "hunter2") := by
  have hplain : ∀ value ∈ ["s3cret", "hunter2"],
      sanitizeText CharClass.asciiOnly value = value := by
    intro value hvalue
    simp only [List.mem_cons, List.not_mem_nil, or_false] at hvalue
    rcases hvalue with rfl | rfl <;> exact sanitizeText_plain _ (by decide) (by decide) (by decide)
  have h1 := sanitize_commandWith (hplain "s3cret" (by simp))
  have h2 := sanitize_commandWith (hplain "hunter2" (by simp))
  refine ⟨.arr (.item (.same _) (.item (.same _) ?_)), h1, ?_⟩
  · have harm : isSecretFlag CharClass.asciiOnly (.str "--token") = true := by decide
    rw [harm]
    exact .value .nil
  · rw [h1, h2]
    simp

end VibeSsh.Ai
