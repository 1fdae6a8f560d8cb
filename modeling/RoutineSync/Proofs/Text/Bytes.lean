import RoutineSync.Proofs.Text.Landing
/-!
Edits in the bytes of a text, wherever they cut. Main statement: a range of bytes that no edit touches
lands in one piece where the mappings of places say, whatever else is inserted and deleted around it.
-/
set_option autoImplicit false

namespace RoutineSync

namespace Text

def bytes (t : Text) : List UInt8 := t.flatMap String.utf8EncodeChar

theorem bytes_append (a b : Text) : bytes (a ++ b) = bytes a ++ bytes b := List.flatMap_append

theorem length_bytes (t : Text) : t.bytes.length = t.size := by
  induction t with
  | nil => rfl
  | cons c r ih =>
    rw [bytes, List.flatMap_cons, List.length_append, String.length_utf8EncodeChar, size_cons]
    exact congrArg (c.utf8Size + ·) ih

end Text

namespace TextEdit

/-- Makes edits at once in bytes of which the first is at place `place`. -/
def applyToBytes : Nat → List TextEdit → List UInt8 → List UInt8
  | _, [], w => w
  | place, e :: es, w =>
    w.take (e.range.start - place) ++ e.text.bytes
      ++ applyToBytes e.range.stop es (w.drop (e.range.stop - place))

/-- Between characters, edits in a text are edits in its bytes. -/
theorem bytes_applyFrom {p : Nat} {es : List TextEdit} {t : Text} (h : Fit p es t) :
    (applyFrom p es t).bytes = applyToBytes p es t.bytes := by
  induction h with
  | nil => rfl
  | @cons p a b c text es h ih =>
    have h1 : p + a.size - p = a.bytes.length := by rw [Text.length_bytes]; omega
    have h2 : p + a.size + b.size - p = (a ++ b).bytes.length := by
      rw [Text.length_bytes, Text.size_append]
      omega
    rw [applyFrom_cons, applyToBytes, Text.bytes_append, Text.bytes_append, ih]
    dsimp only
    rw [h2, Text.bytes_append (a ++ b), List.drop_left, h1, Text.bytes_append a,
      List.append_assoc a.bytes b.bytes, List.take_left]

/-- Edits as they are handed on: inside of a text, in the order of their starts and then of their
ends, and no two of them with a byte in common. Insertions and deletions may touch. -/
structure Orderly (es : List TextEdit) (size : Nat) : Prop where
  inside : ∀ e ∈ es, e.range.start ≤ e.range.stop ∧ e.range.stop ≤ size
  sorted : es.Pairwise fun e f => e.range.start < f.range.start ∨
    (e.range.start = f.range.start ∧ e.range.stop ≤ f.range.stop)
  apart : es.Pairwise fun e f => e.range.stop ≤ f.range.start ∨ f.range.stop ≤ e.range.start

/-- No edit removes a byte of a range, and none inserts strictly inside of it. -/
structure Untouched (es : List TextEdit) (start stop : Nat) : Prop where
  kept : ∀ e ∈ es, ∀ i, e.range.start ≤ i → i < e.range.stop → i < start ∨ stop ≤ i
  whole : ∀ e ∈ es, e.range.start = e.range.stop → e.range.start ≤ start ∨ stop ≤ e.range.start

variable {es : List TextEdit} {a b p size : Nat}

theorem Orderly.pairwise (h : Orderly es size) :
    es.Pairwise fun e f => e.range.stop ≤ f.range.start :=
  (h.sorted.and h.apart).imp_of_mem fun {e f} he hf hef => by
    have := h.inside e he
    have := h.inside f hf
    omega

theorem Untouched.clear (h : Untouched es a b) (hab : a < b) {e : TextEdit} (he : e ∈ es)
    (hle : e.range.start ≤ e.range.stop) : e.range.stop ≤ a ∨ b ≤ e.range.start := by
  rcases Nat.eq_or_lt_of_le hle with heq | hlt
  · have := h.whole e he heq
    omega
  · -- otherwise the first byte of the range that the edit reaches would go
    have := h.kept e he (max a e.range.start)
    omega

/-- What stands in a range that no edit touches is carried along behind what becomes of the bytes
before it. -/
theorem exists_applyToBytes {u x v : List UInt8} (hab : a < b) (hu : p + u.length = a)
    (hx : a + x.length = b) (hin : ∀ e ∈ es, p ≤ e.range.start ∧ e.range.start ≤ e.range.stop)
    (ho : es.Pairwise fun e f => e.range.stop ≤ f.range.start)
    (hc : ∀ e ∈ es, e.range.stop ≤ a ∨ b ≤ e.range.start) :
    ∃ u' v', applyToBytes p es (u ++ (x ++ v)) = u' ++ (x ++ v') ∧
      (u'.length : Int) = u.length + totalDelta (es.filter (countsAtStart a)) := by
  induction es generalizing p u with
  | nil => exact ⟨u, v, rfl, by simp [totalDelta]⟩
  | cons e es ih =>
    obtain ⟨hp, hle⟩ := hin e List.mem_cons_self
    obtain ⟨hbehind, ho⟩ := List.pairwise_cons.1 ho
    rcases hc e List.mem_cons_self with hstop | hstart
    · obtain ⟨u', v', hrest, hlength⟩ := ih (p := e.range.stop) (u := u.drop (e.range.stop - p))
        (by rw [List.length_drop]; omega)
        (fun f hf => ⟨hbehind f hf, (hin f (List.mem_cons_of_mem _ hf)).2⟩) ho
        fun f hf => hc f (List.mem_cons_of_mem _ hf)
      refine ⟨u.take (e.range.start - p) ++ e.text.bytes ++ u', v', ?_, ?_⟩
      · rw [applyToBytes, List.take_append_of_le_length (by omega),
          List.drop_append_of_le_length (by omega), hrest, List.append_assoc _ u']
      · rw [List.filter_cons_of_pos (countsAtStart_iff.2 hstop), totalDelta, delta,
          List.length_append, List.length_append, List.length_take, Text.length_bytes]
        rw [List.length_drop] at hlength
        omega
    · -- this edit and all later ones come behind the range
      have hnone : (e :: es).filter (countsAtStart a) = [] := by
        refine List.filter_eq_nil_iff.2 fun f hf hcounts => ?_
        rw [countsAtStart_iff] at hcounts
        rcases List.mem_cons.1 hf with rfl | hm
        · omega
        · have := hbehind f hm
          have := (hin f hf).2
          omega
      have htake : (u ++ (x ++ v)).take (e.range.start - p)
          = u ++ (x ++ v.take (e.range.start - b)) := by
        rw [List.take_append, List.take_append, List.take_of_length_le (by omega),
          List.take_of_length_le (by omega)]
        congr 3
        omega
      refine ⟨u, v.take (e.range.start - b) ++ e.text.bytes
        ++ applyToBytes e.range.stop es ((u ++ (x ++ v)).drop (e.range.stop - p)), ?_, ?_⟩
      · rw [applyToBytes, htake]
        simp only [List.append_assoc]
      · rw [hnone]
        simp [totalDelta]

/-- Of a range that no edit touches, the same edits count at both ends. -/
theorem filter_countsAtEnd (hab : a < b) (hin : ∀ e ∈ es, e.range.start ≤ e.range.stop)
    (hc : ∀ e ∈ es, e.range.stop ≤ a ∨ b ≤ e.range.start) :
    es.filter (countsAtEnd b) = es.filter (countsAtStart a) := by
  refine List.filter_congr fun e he => ?_
  have := hin e he
  have := hc e he
  rw [Bool.eq_iff_iff, countsAtEnd_iff, countsAtStart_iff]
  omega

theorem fit_of_orderly {t : Text} (h : Orderly es t.size)
    (hplace : ∀ e ∈ es, t.isPlace e.range.start = true ∧ t.isPlace e.range.stop = true) :
    Fit 0 es t := by
  refine fit_of_pairwise (fun e he => ?_) h.pairwise
  obtain ⟨u, v, rfl, hu⟩ := Text.isPlace_iff.1 (hplace e he).1
  obtain ⟨w, x, ht, hw⟩ := Text.isPlace_iff.1 (hplace e he).2
  obtain ⟨m, rfl, rfl⟩ := Text.exists_middle ht (by have := h.inside e he; omega)
  rw [Text.size_append] at hw
  have hrange : e.range = ⟨0 + u.size, 0 + u.size + m.size⟩ := by
    rw [Nat.zero_add, hw, hu]
  exact ⟨u, m, x, by rw [List.append_assoc], hrange⟩

/-- A range of bytes that no edit touches keeps its length and its bytes, and stands afterwards from
where its start lands to where its end lands; neither of the two is cut off at zero or at the largest
place. Where the edits cut between characters, these are the bytes of the edited text. -/
theorem bytes_between_landings {t : Text} (h : Orderly es t.size) (hu : Untouched es a b) (hab : a < b)
    (hb : b ≤ t.size) (hs : (applyToBytes 0 es t.bytes).length ≤ maxPlace) :
    (landEnd es b : Int) - landStart es a = b - a ∧
      (applyToBytes 0 es t.bytes).extract (landStart es a) (landEnd es b) = t.bytes.extract a b ∧
      (landStart es a : Int) = a + totalDelta (es.filter (countsAtStart a)) ∧
      (landEnd es b : Int) = b + totalDelta (es.filter (countsAtEnd b)) ∧
      ((∀ e ∈ es, t.isPlace e.range.start = true ∧ t.isPlace e.range.stop = true) →
        (applyAll es t).bytes = applyToBytes 0 es t.bytes) := by
  have hin : ∀ e ∈ es, e.range.start ≤ e.range.stop := fun e he => (h.inside e he).1
  have hc : ∀ e ∈ es, e.range.stop ≤ a ∨ b ≤ e.range.start := fun e he => hu.clear hab he (hin e he)
  have hsize := t.length_bytes
  -- the bytes before, in and behind the range
  obtain ⟨u, x, v, ht, hul, hxl⟩ : ∃ u x v, t.bytes = u ++ (x ++ v) ∧ u.length = a ∧
      a + x.length = b := by
    refine ⟨t.bytes.take a, (t.bytes.drop a).take (b - a), (t.bytes.drop a).drop (b - a), ?_, ?_, ?_⟩
    · rw [List.take_append_drop, List.take_append_drop]
    · rw [List.length_take]
      omega
    · rw [List.length_take, List.length_drop]
      omega
  obtain ⟨u', v', hafter, hlength⟩ := exists_applyToBytes (p := 0) (v := v) hab
    ((Nat.zero_add _).trans hul) hxl (fun e he => ⟨Nat.zero_le _, hin e he⟩) h.pairwise hc
  rw [ht, hafter]
  rw [ht, hafter, List.length_append, List.length_append] at hs
  have hstart : landStart es a = u'.length := by
    show movePlace a (totalDelta (es.filter (countsAtStart a))) = _
    rw [movePlace]
    omega
  have hstop : landEnd es b = u'.length + x.length := by
    show movePlace b (totalDelta (es.filter (countsAtEnd b))) = _
    rw [filter_countsAtEnd hab hin hc, movePlace]
    omega
  refine ⟨by omega, ?_, by omega, ?_, fun hplace => ?_⟩
  · have hcut : ∀ w y : List UInt8, (w ++ (x ++ y)).extract w.length (w.length + x.length) = x := by
      intro w y
      rw [List.extract_eq_take_drop, List.drop_left, Nat.add_sub_cancel_left, List.take_left]
    rw [hstart, hstop, hcut, ← hxl, ← hul, hcut]
  · rw [filter_countsAtEnd hab hin hc]
    omega
  · rw [← hafter, ← ht]
    exact bytes_applyFrom (fit_of_orderly h hplace)

/-- A deletion and an insertion meet at the start of the range, an insertion and a replacement at its
end, and a character of two bytes stands inside. -/
theorem bytes_between_landings_met :
    let t : Text := "01é345".toList
    let es : List TextEdit := [⟨⟨0, 1⟩, []⟩, ⟨⟨1, 1⟩, "+++".toList⟩, ⟨⟨4, 4⟩, "ü".toList⟩,
      ⟨⟨4, 6⟩, "x".toList⟩]
    Orderly es t.size ∧ Untouched es 1 4 ∧ applyAll es t = "+++1éüx5".toList ∧
      landStart es 1 = 3 ∧ landEnd es 4 = 6 ∧
      (applyAll es t).bytes.extract 3 6 = t.bytes.extract 1 4 := by
  intro t es
  have ho : Orderly es t.size := ⟨by decide, by decide, by decide⟩
  have hu : Untouched es 1 4 := by
    constructor
    · intro e he i
      simp only [es, List.mem_cons, List.not_mem_nil, or_false] at he
      rcases he with rfl | rfl | rfl | rfl <;> simp only <;> omega
    · decide
  obtain ⟨-, hbytes, -, -, hall⟩ := bytes_between_landings ho hu (by decide) (by decide) (by decide)
  rw [← hall (by decide)] at hbytes
  exact ⟨ho, hu, by decide, by decide, by decide, hbytes⟩

end TextEdit

end RoutineSync
