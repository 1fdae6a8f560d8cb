import RoutineSync.Proofs.Scan.Found
/-!
Which of the complete calls of a text a scan finds: one that overlaps no other is lost only where
something of its kind that is not scanned, having been found further left, reaches over its start.
-/
set_option autoImplicit false

namespace RoutineSync

namespace CallShape

/-- What is found starts before a place and ends behind it. -/
def Crosses (p : Nat × CallMatch) (place : Nat) : Prop :=
  p.1 < place ∧ place < p.1 + p.2.text.size

theorem size_lt_of_prefix {x r m : Text} (h : m <+: x ++ r) (hl : x.length < m.length) :
    x.size < m.size := by
  obtain ⟨z, rfl⟩ := List.prefix_of_prefix_length_le (List.prefix_append x r) h (Nat.le_of_lt hl)
  have hz : z ≠ [] := by
    rintro rfl
    simp at hl
  have := Text.size_pos_of_ne_nil hz
  rw [Text.size_append]
  omega

/-- What is found at the start of a word is separated from the others, if none of those reaches over
its place. -/
theorem mem_separate_or_crosses {k : Reader} (hk : k.Sound) {before : Option Char}
    {skip place : Nat} {t lead rest : Text} {m : CallMatch} (ht : t = lead ++ rest) (hr : rest ≠ [])
    (hm : k rest = some m) (hw : Text.endsWord (before.toList ++ lead) = true)
    (hs : skip ≤ lead.length) :
    (place + lead.size, m) ∈ separate before skip place t (k.column t) ∨
      ∃ p ∈ separate before skip place t (k.column t), Crosses p (place + lead.size) := by
  induction t generalizing before skip place lead with
  | nil => exact absurd (List.append_eq_nil_iff.1 ht.symm).2 hr
  | cons c r ih =>
    have hbefore : (!before.any Text.isWord) = Text.endsWord before.toList := by
      cases before <;> rfl
    cases lead with
    | nil =>
      obtain rfl : skip = 0 := Nat.le_zero.1 hs
      obtain rfl : c :: r = rest := ht
      have hhere : ((Reader.column k (c :: r)).at 0).filter (fun _ => !before.any Text.isWord)
          = some m := by
        rw [Option.filter_eq_some_iff, hbefore]
        exact ⟨hm, by rwa [List.append_nil] at hw⟩
      rw [separate, hhere]
      exact .inl List.mem_cons_self
    | cons d lead =>
      obtain ⟨rfl, hlead⟩ := List.cons.inj ht
      have hword : Text.endsWord ((some c).toList ++ lead) = true := by
        rw [← hw, Text.endsWord_append (List.cons_ne_nil c lead)]
        rfl
      have hplace : place + Text.size (c :: lead) = place + c.utf8Size + Text.size lead := by
        rw [Text.size_cons, Nat.add_assoc]
      rw [hplace]
      cases skip with
      | succ skip =>
        rw [separate, Reader.column_cons, List.tail_cons]
        exact ih hlead hword (Nat.le_of_succ_le_succ hs)
      | zero =>
        rw [separate, Reader.column_cons, List.tail_cons]
        split
        · -- a call that starts here ends before the place, or reaches over it
          rename_i n hn
          obtain ⟨hn, -⟩ := Option.filter_eq_some_iff.1 hn
          by_cases hle : n.text.length - 1 ≤ lead.length
          · obtain h | ⟨p, hp, hcross⟩ := ih hlead hword hle
            · exact .inl (List.mem_cons_of_mem _ h)
            · exact .inr ⟨p, List.mem_cons_of_mem _ hp, hcross⟩
          · have hlt := size_lt_of_prefix (x := c :: lead) (ht ▸ hk _ _ hn)
              (by rw [List.length_cons]; omega)
            rw [Text.size_cons] at hlt
            have := c.utf8Size_pos
            refine .inr ⟨_, List.mem_cons_self, ?_, ?_⟩ <;> dsimp only <;> omega
        · exact ih hlead hword (Nat.zero_le _)

theorem mem_occurrences_or_crosses {s : CallShape} {lead rest : Text} {m : CallMatch}
    (hm : s.match? rest = some m) (hw : lead.endsWord = true) :
    (lead.size, m) ∈ s.occurrences (lead ++ rest) ∨
      ∃ p ∈ s.occurrences (lead ++ rest), Crosses p lead.size := by
  have hr : rest ≠ [] := by
    rintro rfl
    exact absurd (opens_of_match? hm) (by decide)
  have := @mem_separate_or_crosses s.match? (fun t n => prefix_of_match?) none 0 0 _ lead rest m
    rfl hr hm hw (Nat.zero_le _)
  rwa [Nat.zero_add, ← matchColumn_eq] at this

theorem apart_separate {k : Reader} (hk : k.Sound) (before : Option Char) (skip place : Nat)
    (t : Text) :
    (separate before skip place t (k.column t)).Pairwise (fun p q => p.1 + p.2.text.size ≤ q.1) ∧
      ∀ p ∈ separate before skip place t (k.column t), place + Text.size (t.take skip) ≤ p.1 := by
  induction t generalizing before skip place with
  | nil => simp [separate]
  | cons c r ih =>
    cases skip with
    | succ skip =>
      obtain ⟨hpair, hle⟩ := ih (some c) skip (place + c.utf8Size)
      rw [separate, Reader.column_cons, List.tail_cons, List.take_succ_cons, Text.size_cons,
        ← Nat.add_assoc]
      exact ⟨hpair, hle⟩
    | zero =>
      rw [separate, Reader.column_cons, List.tail_cons, List.take_zero]
      split
      · rename_i n hn
        obtain ⟨hn, -⟩ := Option.filter_eq_some_iff.1 hn
        obtain ⟨hpair, hle⟩ := ih (some c) (n.text.length - 1) (place + c.utf8Size)
        have htext : n.text.size
            ≤ c.utf8Size + Text.size (r.take (n.text.length - 1)) := by
          have hprefix : n.text <+: c :: r := hk _ _ hn
          cases hcase : n.text with
          | nil => simp
          | cons d z =>
            rw [hcase] at hprefix
            obtain ⟨rfl, hz⟩ := List.cons_prefix_cons.1 hprefix
            rw [List.length_cons, Nat.add_sub_cancel, ← List.prefix_iff_eq_take.1 hz,
              Text.size_cons]
        refine ⟨.cons (fun p hp => ?_) hpair, fun p hp => ?_⟩
        · have := hle p hp
          dsimp only
          omega
        · rcases List.mem_cons.1 hp with rfl | hp
          · exact Nat.le_refl _
          · exact Nat.le_trans (by simp; omega) (hle p hp)
      · obtain ⟨hpair, hle⟩ := ih (some c) 0 (place + c.utf8Size)
        refine ⟨hpair, fun p hp => ?_⟩
        have := hle p hp
        simp at this ⊢
        omega

theorem apart_occurrences (s : CallShape) (t : Text) :
    (s.occurrences t).Pairwise fun p q => p.1 + p.2.text.size ≤ q.1 := by
  rw [occurrences, matchColumn_eq]
  exact (apart_separate (fun t n => prefix_of_match?) none 0 0 t).1

end CallShape

namespace Scan

theorem sorted_candidates (t : Text) :
    ((candidates t).mergeSort Candidate.le).Pairwise fun a b => a.place ≤ b.place := by
  have htrans : ∀ a b c : Candidate, a.le b = true → b.le c = true → a.le c = true := by
    intro a b c hab hbc
    simp only [Candidate.le, Bool.or_eq_true, Bool.and_eq_true, decide_eq_true_eq, beq_iff_eq] at *
    omega
  have htotal : ∀ a b : Candidate, (a.le b || b.le a) = true := by
    intro a b
    simp only [Candidate.le, Bool.or_eq_true, Bool.and_eq_true, decide_eq_true_eq, beq_iff_eq]
    omega
  refine (List.pairwise_mergeSort htrans htotal _).imp fun {a b} h => ?_
  simp only [Candidate.le, Bool.or_eq_true, Bool.and_eq_true, decide_eq_true_eq, beq_iff_eq] at h
  omega

/-- A call is kept, or it starts inside one that is kept. -/
theorem mem_select_or_inside {free : Nat} {cs : List Candidate} {a : Candidate} {c : ScannedCall}
    (hs : cs.Pairwise fun a b => a.place ≤ b.place) (ha : a ∈ cs) (hfree : free ≤ a.place)
    (hc : ScannedCall.ofMatch? a.kind a.place a.found = some c) :
    c ∈ select free cs ∨ ∃ d ∈ select free cs, d.site.start ≤ a.place ∧ a.place < d.site.stop := by
  fun_induction select free cs with
  | case1 => exact absurd ha List.not_mem_nil
  | case2 free b cs hlt ih =>
    rw [List.pairwise_cons] at hs
    rcases List.mem_cons.1 ha with rfl | ha
    · omega
    · exact ih hs.2 ha hfree
  | case3 free b cs _ call hm ih =>
    rw [List.pairwise_cons] at hs
    obtain ⟨hstart, hstop⟩ := ScannedCall.site_of_ofMatch? hm
    rcases List.mem_cons.1 ha with rfl | ha
    · rw [Option.some.inj (hc.symm.trans hm)]
      exact .inl List.mem_cons_self
    · by_cases hlt : a.place < b.stop
      · refine .inr ⟨call, List.mem_cons_self, ?_, ?_⟩
        · rw [hstart]
          exact hs.1 a ha
        · rwa [hstop]
      · obtain h | ⟨d, hd, hinside⟩ := ih hs.2 ha (Nat.not_lt.1 hlt)
        · exact .inl (List.mem_cons_of_mem _ h)
        · exact .inr ⟨d, List.mem_cons_of_mem _ hd, hinside⟩
  | case4 free b cs _ hm ih =>
    rw [List.pairwise_cons] at hs
    rcases List.mem_cons.1 ha with rfl | ha
    · simp [hm] at hc
    · exact ih hs.2 ha hfree

theorem mem_candidates {t : Text} {kind : ActionKind} {p : Nat × CallMatch}
    (hp : p ∈ (CallShape.standard kind).occurrences t) : ⟨p.1, kind, p.2⟩ ∈ candidates t := by
  simp only [candidates, CallShape.library, List.mem_flatMap, List.mem_map]
  exact ⟨_, ⟨kind, kind.mem_all, rfl⟩, p, hp, rfl⟩

/-- Candidates that come in the order of their places are selected from as they come. -/
theorem scan_eq_select {t : Text} (h : (candidates t).Pairwise fun a b => a.le b = true) :
    scan t = select 0 (candidates t) := by
  rw [scan, List.mergeSort_of_pairwise h]

end Scan

/-- What is found of a kind is scanned where it makes a call, unless it starts inside one that is. -/
theorem mem_scan_or_inside {t : Text} {kind : ActionKind} {p : Nat × CallMatch} {c : ScannedCall}
    (hp : p ∈ (CallShape.standard kind).occurrences t)
    (hc : ScannedCall.ofMatch? kind p.1 p.2 = some c) :
    c ∈ scan t ∨ ∃ d ∈ scan t, d.site.start ≤ p.1 ∧ p.1 < d.site.stop := by
  exact Scan.mem_select_or_inside (Scan.sorted_candidates t)
    (List.mem_mergeSort.2 (Scan.mem_candidates hp)) (Nat.zero_le _) hc

namespace ScannedCall

/-- Neither of two calls has a part of the other. -/
def Clear (c d : ScannedCall) : Prop :=
  c.site.stop ≤ d.site.start ∨ d.site.stop ≤ c.site.start

end ScannedCall

/-- What looks like a call and is not scanned: it makes no action, or it starts inside a call. -/
def Scan.Dropped (t : Text) (kind : ActionKind) (p : Nat × CallMatch) : Prop :=
  ScannedCall.ofMatch? kind p.1 p.2 = none ∨ ∃ d ∈ scan t, d.site.start ≤ p.1 ∧ p.1 < d.site.stop

/-- A complete call that overlaps no other one that is scanned is scanned itself, exactly if nothing
of its kind that is dropped reaches over its start. -/
theorem mem_scan_iff_not_crossed {t : Text} {c : ScannedCall} (hc : c.FoundIn t)
    (hclear : ∀ d ∈ scan t, d = c ∨ d.Clear c) :
    c ∈ scan t ↔ ¬ ∃ p ∈ (CallShape.standard c.action.kind).occurrences t,
      Scan.Dropped t c.action.kind p ∧ CallShape.Crosses p c.site.start := by
  have hlt := hc.start_lt_stop
  have hinside : ∀ d ∈ scan t, d.site.start < c.site.stop → c.site.start < d.site.stop → d = c := by
    intro d hd hds hcd
    obtain rfl | hclear | hclear := hclear d hd
    · rfl
    · omega
    · omega
  constructor
  · rintro hmem ⟨p, hp, -, hbefore, hbehind⟩
    obtain ⟨q, hq, hqc⟩ := exists_occurrence_of_mem_scan hmem
    obtain ⟨hstart, hstop⟩ := ScannedCall.site_of_ofMatch? hqc
    have hpairs := CallShape.apart_occurrences (CallShape.standard c.action.kind) t
    -- one of the two is before the other
    obtain rfl | hpq | hqp := eq_or_of_pairwise hpairs hp hq
    · omega
    · omega
    · omega
  · intro hnone
    obtain ⟨kind, lead, rest, m, rfl, hm, hcall, hw⟩ := hc
    obtain rfl := ScannedCall.kind_of_ofMatch? hcall
    obtain ⟨hstart, hstop⟩ := ScannedCall.site_of_ofMatch? hcall
    obtain hmem | ⟨p, hp, hcross⟩ := CallShape.mem_occurrences_or_crosses hm hw
    · obtain h | ⟨d, hd, hds, hsd⟩ := mem_scan_or_inside hmem hcall
      · exact h
      · dsimp only at hds hsd
        rw [← hinside d hd (by omega) (by omega)]
        exact hd
    · refine absurd ⟨p, hp, ?_, hstart ▸ hcross⟩ hnone
      cases hpc : ScannedCall.ofMatch? c.action.kind p.1 p.2 with
      | none => exact .inl hpc
      | some e =>
        obtain h | h := mem_scan_or_inside hp hpc
        · obtain ⟨hestart, hestop⟩ := ScannedCall.site_of_ofMatch? hpc
          obtain ⟨hbefore, hbehind⟩ := hcross
          have := hinside e h (by omega) (by omega)
          rw [this] at hestart
          omega
        · exact .inr h

/-- A text in which what starts in an argument of the first call is read on through a comment to
the end, over the second call. -/
def hidingText : Text := "auton::follow(\"auton::wait(//\", 1, 2); auton::wait(8);\n7);".toList

theorem exists_hidden : ∃ c : ScannedCall, c.FoundIn hidingText ∧
    ∀ d ∈ scan hidingText, d.action ≠ c.action ∧ d.Clear c := by
  have hsorted : (Scan.candidates hidingText).Pairwise fun a b => a.le b = true := by
    simp only [Scan.candidates, CallShape.occurrences, CallShape.matchColumn_eq]
    decide +kernel
  have hscan : ∀ d ∈ scan hidingText, d.action ≠ .wait 8 ∧ d.site.stop ≤ 39 := by
    rw [Scan.scan_eq_select hsorted]
    simp only [Scan.candidates, CallShape.occurrences, CallShape.matchColumn_eq]
    decide +kernel
  have hcall : (((CallShape.standard .wait).match? (hidingText.drop 39)).bind
      (ScannedCall.ofMatch? .wait 39)).map (fun c => (c.action, c.site.start)) = some (.wait 8, 39) := by
    decide +kernel
  obtain ⟨c, hc, heq⟩ := Option.map_eq_some_iff.1 hcall
  obtain ⟨haction, hstart⟩ := Prod.mk.inj heq
  obtain ⟨m, hm, hc⟩ := Option.bind_eq_some_iff.1 hc
  refine ⟨c, ⟨.wait, hidingText.take 39, hidingText.drop 39, m, (List.take_append_drop _ _).symm, hm,
    hc, by decide +kernel⟩, fun d hd => ?_⟩
  obtain ⟨hother, hstop⟩ := hscan d hd
  rw [haction]
  exact ⟨hother, .inl (by omega)⟩

theorem mem_scan_iff_not_crossed_hidden : ∃ c : ScannedCall, c.FoundIn hidingText ∧
    (∀ d ∈ scan hidingText, d = c ∨ d.Clear c) ∧
    ∃ p ∈ (CallShape.standard c.action.kind).occurrences hidingText,
      Scan.Dropped hidingText c.action.kind p ∧ CallShape.Crosses p c.site.start := by
  obtain ⟨c, hc, hscan⟩ := exists_hidden
  have hclear : ∀ d ∈ scan hidingText, d = c ∨ d.Clear c := fun d hd => .inr (hscan d hd).2
  have hlost : c ∉ scan hidingText := fun h => (hscan c h).1 rfl
  exact ⟨c, hc, hclear, not_not.1 fun h => hlost ((mem_scan_iff_not_crossed hc hclear).2 h)⟩

/-- A complete call can be lost that overlaps nothing that is scanned. -/
theorem complete_call_lost :
    ∃ (t : Text) (c : ScannedCall), c.FoundIn t ∧ (∀ d ∈ scan t, d.Clear c) ∧ c ∉ scan t := by
  obtain ⟨c, hc, hscan⟩ := exists_hidden
  exact ⟨hidingText, c, hc, fun d hd => (hscan d hd).2, fun h => (hscan c h).1 rfl⟩

end RoutineSync
