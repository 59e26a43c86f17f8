import VibeSsh.Docker.Revoke

/-! # The table of connections

`add_link` and `remove_link` over whole histories: the table is a symmetric relation that says what
was last asked about each unordered pair. A pair is put in order by the numbers of its identifiers,
while the table's `CHECK` compares their text; the two orders agree. -/

namespace VibeSsh.Docker

open Lib List

/-! ## The two orders -/

def hexDigit (c : Char) : Nat := if c.isDigit then c.toNat - 48 else c.toNat - 87

def hexValue (digits : Text) : Nat := Nat.ofDigits 16 (digits.map hexDigit).reverse

/-- `as_u128`. -/
def asU128 (id : Uuid) : Nat := hexValue id.simple

/-- `CHECK (application_id < peer_id)`, on the text of the two columns. -/
def check (row : Uuid × Uuid) : Prop := row.1.display < row.2.display

def isHex (c : Char) : Bool := c.isDigit || ('a' ≤ c && c ≤ 'f')

theorem hexDigit_spec {c d : Char} (hc : isHex c = true) (hd : isHex d = true) :
    hexDigit c < 16 ∧ (c < d → hexDigit c < hexDigit d) := by
  have hdigit : ∀ e : Char, e.isDigit = true ↔ 48 ≤ e.toNat ∧ e.toNat ≤ 57 := by
    intro e
    simp only [Char.isDigit, Bool.and_eq_true, decide_eq_true_eq]
    rfl
  have hletter : ∀ e : Char, 'a' ≤ e ∧ e ≤ 'f' ↔ 97 ≤ e.toNat ∧ e.toNat ≤ 102 := fun _ => Iff.rfl
  have hlt : c < d ↔ c.toNat < d.toNat := Iff.rfl
  simp only [isHex, Bool.or_eq_true, Bool.and_eq_true, decide_eq_true_eq, hdigit, hletter] at hc hd
  simp only [hexDigit, hdigit, hlt]
  split_ifs <;> omega

theorem hexValue_lt {l m : Text} (hl : ∀ c ∈ l, isHex c = true) (hm : ∀ c ∈ m, isHex c = true)
    (hlen : l.length = m.length) (h : l < m) : hexValue l < hexValue m := by
  induction l generalizing m with
  | nil => simp [length_eq_zero_iff.mp hlen.symm] at h
  | cons c l ih =>
    cases m with
    | nil => cases hlen
    | cons d m =>
      rw [forall_mem_cons] at hl hm
      replace hlen := Nat.succ.inj hlen
      have hrest : hexValue l < 16 ^ l.length := by
        have hlt : ∀ n ∈ (l.map hexDigit).reverse, n < 16 := by
          simpa using fun c hc => (hexDigit_spec (hl.2 c hc) (hl.2 c hc)).1
        simpa [hexValue] using Nat.ofDigits_lt_base_pow_length (by decide) hlt
      have hcons : ∀ c (l : Text), hexValue (c :: l) = hexValue l + 16 ^ l.length * hexDigit c := by
        simp [hexValue, Nat.ofDigits_append]
      rw [hcons, hcons, ← hlen]
      rcases cons_lt_cons_iff.mp h with hlt | ⟨rfl, hlt⟩
      · have hdigit := (hexDigit_spec hl.1 hm.1).2 hlt
        nlinarith
      · exact Nat.add_lt_add_right (ih hl.2 hm.2 hlen hlt) _

theorem lt_insert {p q : Text} (h : p.length = q.length) (c : Char) (s t : Text) :
    p ++ c :: s < q ++ c :: t ↔ p ++ s < q ++ t := by
  induction p generalizing q with
  | nil =>
    obtain rfl := length_eq_zero_iff.mp h.symm
    simp
  | cons x p ih =>
    cases q with
    | nil => cases h
    | cons y q => simp only [cons_append, cons_lt_cons_iff, ih (Nat.succ.inj h)]

theorem display_lt_iff (a b : Uuid) : a.display < b.display ↔ a.simple < b.simple := by
  have hlen := a.wf.1.trans b.wf.1.symm
  have hjoin : ∀ id : Uuid, id.display = id.simple.take 8 ++ '-' :: ((id.simple.drop 8).take 4 ++
      '-' :: ((id.simple.drop 12).take 4 ++ '-' :: ((id.simple.drop 16).take 4 ++ '-' ::
        id.simple.drop 20))) := fun _ => by simp [Uuid.display, Text.join, intercalate, intersperse]
  have hsplit : ∀ id : Uuid, id.simple.take 8 ++ (id.simple.drop 8).take 4 ++
      (id.simple.drop 12).take 4 ++ (id.simple.drop 16).take 4 ++ id.simple.drop 20 = id.simple := by
    intro id
    simp [← take_add]
  rw [hjoin, hjoin, lt_insert (by simp [hlen])]
  simp only [← append_assoc]
  rw [lt_insert (by simp [hlen])]
  simp only [← append_assoc]
  rw [lt_insert (by simp [hlen])]
  simp only [← append_assoc]
  rw [lt_insert (by simp [hlen]), hsplit, hsplit]

theorem le_iff_asU128 (a b : Uuid) : a ≤ b ↔ asU128 a ≤ asU128 b := by
  have hlen : ∀ a b : Uuid, a.simple < b.simple → asU128 a < asU128 b := fun a b =>
    hexValue_lt (all_eq_true.mp a.wf.2) (all_eq_true.mp b.wf.2) (a.wf.1.trans b.wf.1.symm)
  constructor
  · intro h
    rcases lt_or_eq_of_le (show a.simple ≤ b.simple from h) with hlt | heq
    · exact (hlen a b hlt).le
    · rw [Uuid.eq_of_simple heq]
  · intro h
    by_contra hle
    exact absurd (hlen b a (not_le.mp hle)) (not_lt.mpr h)

/-! ## Histories -/

inductive LinkOp where
  | add (a b : Uuid)
  | remove (a b : Uuid)

def LinkOp.pair : LinkOp → Sym2 Uuid
  | .add a b => s(a, b)
  | .remove a b => s(a, b)

/-- A call that is refused changes nothing. -/
def Tables.apply (t : Tables) : LinkOp → Tables
  | .add a b => (t.addLink a b).toOption.getD t
  | .remove a b => t.removeLink a b

/-- Two applications that `add_link` does not refuse to connect. -/
def Tables.Connectable (t : Tables) (a b : Uuid) : Prop :=
  a ≠ b ∧ a ∈ t.rows.map Row.id ∧ b ∈ t.rows.map Row.id

variable {t : Tables} {a b c d : Uuid}

theorem orderedPair_eq_iff : orderedPair a b = orderedPair c d ↔ s(a, b) = s(c, d) := by
  constructor
  · intro h
    have hmk : ∀ x y, s((orderedPair x y).1, (orderedPair x y).2) = s(x, y) := by
      intro x y
      rcases orderedPair_cases x y with h | h <;> rw [h]
      exact Sym2.eq_swap
    rw [← hmk a b, h, hmk]
  · intro h
    rcases Sym2.eq_iff.mp h with ⟨rfl, rfl⟩ | ⟨rfl, rfl⟩
    · rfl
    · exact orderedPair_comm a b

theorem connectable_congr (h : s(a, b) = s(c, d)) : t.Connectable a b ↔ t.Connectable c d := by
  rcases Sym2.eq_iff.mp h with ⟨rfl, rfl⟩ | ⟨rfl, rfl⟩
  · rfl
  · simp only [Tables.Connectable, ne_comm, and_comm]

theorem connectable_of_mem (h : orderedPair a b ∈ t.links) : t.Connectable a b :=
  (connectable_congr (orderedPair_eq_iff.mp (if_pos (t.links_ordered _ h).1))).mp
    ⟨(t.links_ordered _ h).2, t.links_known _ h⟩

theorem apply_add (t : Tables) (c d : Uuid) : (t.apply (.add c d)).rows = t.rows ∧
    ∀ p, p ∈ (t.apply (.add c d)).links ↔ p ∈ t.links ∨ p = orderedPair c d ∧ t.Connectable c d := by
  simp only [Tables.apply]
  rcases addLink_cases t c d with ⟨hrefused, e, he⟩ | ⟨hne, hknown, t', ht', hlinks⟩
  · have hno : ¬ t.Connectable c d := fun h => hrefused.elim h.1 (· h.2)
    exact ⟨by rw [he]; rfl, fun p => by simp [he, hno, Except.toOption]⟩
  · refine ⟨?_, fun p => by simp [ht', hlinks, Tables.Connectable, hne, hknown, Except.toOption]⟩
    rw [Tables.addLink, dif_neg hne, dif_pos hknown]
    simp only [Tables.insertLink, Except.toOption, Option.getD_some, apply_ite Tables.rows, ite_self]

/-- What one call makes of a pair. -/
theorem mem_links_apply (t : Tables) (op : LinkOp) (a b : Uuid) :
    (t.apply op).rows = t.rows ∧ (orderedPair a b ∈ (t.apply op).links ↔
      if op.pair = s(a, b) then (∃ c d, op = .add c d) ∧ t.Connectable a b
      else orderedPair a b ∈ t.links) := by
  cases op with
  | add c d =>
    obtain ⟨hrows, hlinks⟩ := apply_add t c d
    refine ⟨hrows, ?_⟩
    rw [hlinks, orderedPair_eq_iff]
    by_cases hpair : s(c, d) = s(a, b)
    · rw [connectable_congr hpair]
      simpa [LinkOp.pair, hpair] using connectable_of_mem
    · simp [LinkOp.pair, hpair, Ne.symm hpair]
  | remove c d =>
    refine ⟨rfl, ?_⟩
    simp only [Tables.apply, Tables.removeLink, LinkOp.pair, mem_filter, decide_eq_true_eq, ne_eq,
      orderedPair_eq_iff, reduceCtorEq, exists_false, false_and]
    split <;> simp_all [eq_comm]

/-- **The table after any history.** -/
theorem links_follow_history (t : Tables) (ops : List LinkOp) (a b : Uuid) :
    (b ∈ (ops.foldl Tables.apply t).linksOf a ↔ a ∈ (ops.foldl Tables.apply t).linksOf b) ∧
    a ∉ (ops.foldl Tables.apply t).linksOf a ∧
    (b ∈ (ops.foldl Tables.apply t).linksOf a ↔
      match ops.reverse.find? (·.pair = s(a, b)) with
      | none => b ∈ t.linksOf a
      | some (.add _ _) => t.Connectable a b
      | some (.remove _ _) => False) ∧
    (∀ op, b ∈ (((ops.foldl Tables.apply t).apply op).apply op).linksOf a ↔
      b ∈ ((ops.foldl Tables.apply t).apply op).linksOf a) ∧
    orderedPair a b = (if asU128 a ≤ asU128 b then (a, b) else (b, a)) ∧
    (a ≠ b → check (orderedPair a b)) := by
  simp only [mem_linksOf]
  refine ⟨by rw [orderedPair_comm], fun h => (connectable_of_mem h).1 rfl, ?_, fun op => ?_,
    by simp only [orderedPair, le_iff_asU128], fun hne => ?_⟩
  · -- by induction on the history from its end, with the rows unchanged
    refine And.right (a := (ops.foldl Tables.apply t).rows = t.rows) ?_
    induction ops using reverseRecOn with
    | nil => exact ⟨rfl, Iff.rfl⟩
    | append_singleton ops op ih =>
      obtain ⟨hrows, hmem⟩ := mem_links_apply (ops.foldl Tables.apply t) op a b
      rw [foldl_append, foldl_cons, foldl_nil, reverse_append, reverse_singleton, singleton_append,
        find?_cons, hmem]
      refine ⟨hrows.trans ih.1, ?_⟩
      by_cases hpair : op.pair = s(a, b)
      · cases op <;> simp [hpair, Tables.Connectable, ih.1]
      · simpa [hpair] using ih.2
  · have hagain := mem_links_apply ((ops.foldl Tables.apply t).apply op) op a b
    have honce := mem_links_apply (ops.foldl Tables.apply t) op a b
    rw [hagain.2, honce.2]
    simp only [Tables.Connectable, honce.1]
    split <;> rfl
  · obtain ⟨hle, hne⟩ := Tables.orderedPair_ordered hne
    exact (display_lt_iff _ _).mpr (lt_of_le_of_ne hle fun heq => hne (Uuid.eq_of_simple heq))

end VibeSsh.Docker
