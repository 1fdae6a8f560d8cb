import Mathlib.Data.List.Sort
import RoutineSync.Proofs.Operations
import RoutineSync.Proofs.Sync.Anchored
import RoutineSync.Scan
/-!
What a scan finds: calls that stand in the text, each at the start of a word, one behind the other,
and the steps made of them.
-/
set_option autoImplicit false

namespace RoutineSync

namespace Text

/-- Whether a word can start behind a text. -/
def endsWord (t : Text) : Bool := !t.getLast?.any isWord

theorem endsWord_append {x y : Text} (h : y ≠ []) : (x ++ y).endsWord = y.endsWord := by
  rw [endsWord, endsWord, List.getLast?_append_of_ne_nil x h]

theorem endsWord_of_append {x y : Text} (h : (x ++ y).endsWord = true) : y.endsWord = true := by
  by_cases hy : y = []
  · rw [hy]
    rfl
  · rwa [endsWord_append hy] at h

end Text

namespace CallShape

theorem exists_of_mem_separate {k : Reader} {before : Option Char} {skip place : Nat} {t : Text}
    {p : Nat × CallMatch} (h : p ∈ separate before skip place t (k.column t)) :
    ∃ lead rest : Text, t = lead ++ rest ∧ p.1 = place + lead.size ∧ k rest = some p.2 ∧
      Text.endsWord (before.toList ++ lead) = true := by
  induction t generalizing before skip place with
  | nil => simp [separate] at h
  | cons c r ih =>
    have later : ∀ {skip}, p ∈ separate (some c) skip (place + c.utf8Size) r (k.column r) →
        ∃ lead rest : Text, c :: r = lead ++ rest ∧ p.1 = place + lead.size ∧ k rest = some p.2 ∧
          Text.endsWord (before.toList ++ lead) = true := by
      intro skip hp
      obtain ⟨lead, rest, rfl, hpl, hk, hw⟩ := ih hp
      refine ⟨c :: lead, rest, rfl, by rw [hpl, Text.size_cons]; omega, hk, ?_⟩
      simpa [Text.endsWord, List.getLast?_append, List.getLast?_cons] using hw
    cases skip with
    | succ skip =>
      rw [separate, Reader.column_cons, List.tail_cons] at h
      exact later h
    | zero =>
      rw [separate, Reader.column_cons, List.tail_cons] at h
      split at h
      · rename_i m hm
        rcases List.mem_cons.1 h with rfl | h
        · obtain ⟨hm, hw⟩ := Option.filter_eq_some_iff.1 hm
          refine ⟨[], c :: r, rfl, rfl, hm, ?_⟩
          cases before with
          | none => rfl
          | some b => simpa [Text.endsWord] using hw
        · exact later h
      · exact later h

theorem exists_of_mem_occurrences {s : CallShape} {t : Text} {p : Nat × CallMatch}
    (h : p ∈ s.occurrences t) :
    ∃ lead rest : Text, t = lead ++ rest ∧ p.1 = lead.size ∧ s.match? rest = some p.2 ∧
      lead.endsWord = true := by
  rw [occurrences, matchColumn_eq] at h
  obtain ⟨lead, rest, ht, hp, hk, hw⟩ := exists_of_mem_separate h
  exact ⟨lead, rest, ht, hp.trans (Nat.zero_add _), hk, hw⟩

end CallShape

namespace ScannedCall

theorem ofMatch?_eq_some_iff {kind : ActionKind} {place : Nat} {m : CallMatch} {c : ScannedCall} :
    ofMatch? kind place m = some c ↔
      ∃ values ranges action, m.extract? = some (values, ranges) ∧
        Action.ofParams? kind values = some action ∧
        c = ⟨action, ⟨place, place + m.text.size, m.text, ranges⟩⟩ := by
  simp only [ofMatch?, Option.bind_eq_bind, Option.bind_eq_some_iff, Prod.exists, Option.pure_def,
    Option.some.injEq]
  grind

theorem kind_of_ofMatch? {kind : ActionKind} {place : Nat} {m : CallMatch} {c : ScannedCall}
    (h : ofMatch? kind place m = some c) : c.action.kind = kind := by
  obtain ⟨_, _, _, -, haction, rfl⟩ := ofMatch?_eq_some_iff.1 h
  exact Action.kind_of_ofParams? haction

theorem site_of_ofMatch? {kind : ActionKind} {place : Nat} {m : CallMatch} {c : ScannedCall}
    (h : ofMatch? kind place m = some c) :
    c.site.start = place ∧ c.site.stop = place + m.text.size := by
  obtain ⟨_, _, _, -, -, rfl⟩ := ofMatch?_eq_some_iff.1 h
  exact ⟨rfl, rfl⟩

theorem ofMatch?_shift (kind : ActionKind) (bias place : Nat) (m : CallMatch) :
    ofMatch? kind (bias + place) m = (ofMatch? kind place m).map (shift bias) := by
  unfold ofMatch?
  cases m.extract? with
  | none => rfl
  | some p =>
    obtain ⟨values, ranges⟩ := p
    simp only [Option.bind_eq_bind, Option.bind_some]
    cases Action.ofParams? kind values with
    | none => rfl
    | some action =>
      simp [shift, Nat.add_comm bias place, Nat.add_right_comm]

/-- The call was found in the text. -/
def FoundIn (c : ScannedCall) (t : Text) : Prop :=
  ∃ kind, ∃ lead rest : Text, ∃ m, t = lead ++ rest ∧ (CallShape.standard kind).match? rest = some m ∧
    ofMatch? kind lead.size m = some c ∧ lead.endsWord = true

end ScannedCall

namespace Scan

theorem exists_of_mem_candidates {t : Text} {c : Candidate} (h : c ∈ candidates t) :
    ∃ lead rest : Text, t = lead ++ rest ∧ c.place = lead.size ∧
      (CallShape.standard c.kind).match? rest = some c.found ∧ lead.endsWord = true := by
  simp only [candidates, CallShape.library, List.mem_flatMap, List.mem_map] at h
  obtain ⟨s, ⟨kind, -, rfl⟩, p, hp, rfl⟩ := h
  exact CallShape.exists_of_mem_occurrences hp

theorem exists_of_mem_select {free : Nat} {cs : List Candidate} {c : ScannedCall}
    (h : c ∈ select free cs) :
    ∃ a ∈ cs, free ≤ a.place ∧ ScannedCall.ofMatch? a.kind a.place a.found = some c := by
  fun_induction select free cs with
  | case1 => simp at h
  | case2 free a cs hlt ih =>
    obtain ⟨b, hb, hf, hc⟩ := ih h
    exact ⟨b, List.mem_cons_of_mem _ hb, hf, hc⟩
  | case3 free a cs hlt call hm ih =>
    rcases List.mem_cons.1 h with rfl | h
    · exact ⟨a, List.mem_cons_self, Nat.not_lt.1 hlt, hm⟩
    · obtain ⟨b, hb, hf, hc⟩ := ih h
      refine ⟨b, List.mem_cons_of_mem _ hb, ?_, hc⟩
      simp only [Candidate.stop] at hf
      omega
  | case4 free a cs hlt hm ih =>
    obtain ⟨b, hb, hf, hc⟩ := ih h
    exact ⟨b, List.mem_cons_of_mem _ hb, hf, hc⟩

theorem pairwise_select (free : Nat) (cs : List Candidate) :
    (select free cs).Pairwise fun a b => a.site.stop ≤ b.site.start := by
  fun_induction select free cs with
  | case1 => exact .nil
  | case2 free a cs _ ih => exact ih
  | case3 free a cs _ call hm ih =>
    refine .cons (fun b hb => ?_) ih
    obtain ⟨d, -, hd, hm'⟩ := exists_of_mem_select hb
    rw [(ScannedCall.site_of_ofMatch? hm).2, (ScannedCall.site_of_ofMatch? hm').1]
    exact hd
  | case4 free a cs _ _ ih => exact ih

end Scan

theorem foundIn_of_mem_scan {t : Text} {c : ScannedCall} (h : c ∈ scan t) : c.FoundIn t := by
  obtain ⟨a, ha, -, hm⟩ := Scan.exists_of_mem_select h
  rw [List.mem_mergeSort] at ha
  obtain ⟨lead, rest, ht, hp, hk, hw⟩ := Scan.exists_of_mem_candidates ha
  exact ⟨a.kind, lead, rest, a.found, ht, hk, by rwa [← hp], hw⟩

theorem exists_occurrence_of_mem_scan {t : Text} {c : ScannedCall} (h : c ∈ scan t) :
    ∃ p ∈ (CallShape.standard c.action.kind).occurrences t,
      ScannedCall.ofMatch? c.action.kind p.1 p.2 = some c := by
  obtain ⟨a, ha, -, hm⟩ := Scan.exists_of_mem_select h
  rw [List.mem_mergeSort] at ha
  simp only [Scan.candidates, CallShape.library, List.mem_flatMap, List.mem_map] at ha
  obtain ⟨_, ⟨kind, -, rfl⟩, p, hp, rfl⟩ := ha
  obtain rfl : c.action.kind = kind := ScannedCall.kind_of_ofMatch? hm
  exact ⟨p, hp, hm⟩

theorem pairwise_scan (t : Text) : (scan t).Pairwise fun a b => a.site.stop ≤ b.site.start :=
  Scan.pairwise_select _ _

namespace ScannedCall

theorem FoundIn.standsAt {c : ScannedCall} {t : Text} (h : c.FoundIn t) :
    t.StandsAt c.site.start c.site.text ∧ c.site.stop = c.site.start + c.site.text.size ∧
      CallText.Proper ⟨c.site.text, c.site.params⟩ := by
  obtain ⟨kind, lead, rest, m, rfl, hm, hc, -⟩ := h
  obtain ⟨values, ranges, action, he, -, rfl⟩ := ofMatch?_eq_some_iff.1 hc
  obtain ⟨x, rfl⟩ := CallShape.prefix_of_match? hm
  exact ⟨⟨lead, x, by rw [List.append_assoc], rfl⟩, rfl, CallShape.proper_of_match? hm he⟩

theorem FoundIn.start_lt_stop {c : ScannedCall} {t : Text} (h : c.FoundIn t) :
    c.site.start < c.site.stop := by
  obtain ⟨h1, h2, h3⟩ := h.standsAt
  exact CallSite.StandsIn.start_lt_stop ⟨h1, h2, h3⟩

/-- Calls one behind the other are told by which ones they are. -/
theorem eq_of_mem_iff {l l' : List ScannedCall}
    (hl : l.Pairwise fun a b => a.site.stop ≤ b.site.start)
    (hl' : l'.Pairwise fun a b => a.site.stop ≤ b.site.start)
    (hlt : ∀ c ∈ l, c.site.start < c.site.stop) (h : ∀ c, c ∈ l ↔ c ∈ l') : l = l' := by
  let before : ScannedCall → ScannedCall → Prop := fun a b => a.site.start < b.site.start
  have : Std.Irrefl before := ⟨fun a => Nat.lt_irrefl _⟩
  have : Std.Antisymm before := ⟨fun a b hab hba => absurd hab (Nat.lt_asymm hba)⟩
  have hs : l.Pairwise before :=
    hl.imp_of_mem fun {a b} ha _ hab => Nat.lt_of_lt_of_le (hlt a ha) hab
  have hs' : l'.Pairwise before :=
    hl'.imp_of_mem fun {a b} ha _ hab => Nat.lt_of_lt_of_le (hlt a ((h a).2 ha)) hab
  exact hs.eq_of_mem_iff hs' h

theorem eq_or_apart {l : List ScannedCall} (hl : l.Pairwise fun a b => a.site.stop ≤ b.site.start)
    {a b : ScannedCall} (ha : a ∈ l) (hb : b ∈ l) :
    a = b ∨ a.site.stop ≤ b.site.start ∨ b.site.stop ≤ a.site.start :=
  eq_or_of_pairwise hl ha hb

end ScannedCall

/-- The calls of a text stand in it one behind the other. -/
theorem anchored_scan (t : Text) : Anchored t ((scan t).map (·.site)) where
  stands a ha := by
    obtain ⟨c, hc, rfl⟩ := List.mem_map.1 ha
    obtain ⟨h1, h2, h3⟩ := (foundIn_of_mem_scan hc).standsAt
    exact ⟨h1, h2, h3⟩
  ordered := List.pairwise_map.2 (pairwise_scan t)

/-- The step of a call that is given the identity with a number. -/
def ScannedCall.stepWith (c : ScannedCall) (id : Nat) : Step :=
  ⟨⟨BitVec.ofNat 128 id⟩, c.action, some c.site⟩

theorem slice_of_mem_scan {t : Text} {c : ScannedCall} (h : c ∈ scan t) :
    t.slice c.site.start c.site.stop = c.site.text := by
  obtain ⟨hstands, hstop, -⟩ := (foundIn_of_mem_scan h).standsAt
  rw [Text.slice, Text.slice?_eq_some_iff.2 ⟨hstands, hstop.symm⟩]
  rfl

/-- The steps of a scanned text, numbered in their order. -/
theorem run_scanSteps (t : Text) (bias : Nat) (supply : IdSupply) :
    (scanSteps t bias).run supply =
      (((scan t).zipIdx supply.next).map (fun p => (p.1.shift bias).stepWith p.2),
        ⟨supply.next + (scan t).length⟩) := by
  have hall : ∀ c ∈ scan t, t.slice c.site.start c.site.stop = c.site.text :=
    fun c hc => slice_of_mem_scan hc
  show (List.mapM ((Operations.plain.access t).toStep bias) (scan t)).run supply = _
  generalize scan t = cs at hall ⊢
  induction cs generalizing supply with
  | nil => rfl
  | cons c cs ih =>
    obtain ⟨hslice, hrest⟩ := List.forall_mem_cons.1 hall
    have hstep : ((Operations.plain.access t).toStep bias c).run supply
        = ((c.shift bias).stepWith supply.next, ⟨supply.next + 1⟩) := by
      show ((ScannedCall.shift bias { c with
        site := { c.site with text := t.slice c.site.start c.site.stop } }).stepWith _, _) = _
      rw [hslice]
    rw [List.mapM_cons, StateT.run_bind, hstep]
    refine (StateT.run_bind _ _ _).trans ?_
    rw [ih _ hrest]
    show ((c.shift bias).stepWith supply.next :: _, (⟨supply.next + 1 + cs.length⟩ : IdSupply)) = _
    simp only [List.zipIdx_cons, List.map_cons, List.length_cons, Prod.mk.injEq, IdSupply.mk.injEq,
      true_and]
    omega

/-- A scan reads the text of a call where it has found it. -/
theorem Operations.Faithful.scanSteps {m : Type → Type} [Monad m] [LawfulMonad m]
    {o : Operations m} (h : o.Faithful) (t : Text) (bias : Nat) (supply : IdSupply) :
    Follows ((o.scanSteps t bias).run supply) ((RoutineSync.scanSteps t bias).run supply) := by
  refine Follows.mapM_state (fun c hc s => ?_) supply
  obtain ⟨h1, h2, h3⟩ := (foundIn_of_mem_scan hc).standsAt
  have hc : c.site.StandsIn t := ⟨h1, h2, h3⟩
  obtain ⟨hstart, hstop⟩ := hc.spansIn.liesIn.isPlace
  have hslice := (h.access t).slice hstart hstop (Nat.le_of_lt hc.start_lt_stop)
  exact (hslice.lift_state s).after fun _ _ _ => Follows.after (.pure _) fun _ _ _ => .pure _

end RoutineSync
