import RoutineSync.Proofs.Call.Unblocked
import RoutineSync.Proofs.Sync.Locality
import RoutineSync.Proofs.Sync.Marks
/-!
A change that replaces one literal of a call in plain text: the rescan of its surroundings finds this
call again, with the new value, and nothing else.
-/
set_option autoImplicit false

namespace RoutineSync

namespace Text

theorem not_infix_insert {l a y : Text} (hne : a ≠ []) (ha : ∀ c ∈ a, c ∉ l) (hy : ¬l <:+: y) :
    ∀ {x : Text}, ¬l <:+: x → ¬l <:+: x ++ (a ++ y) := by
  induction a with
  | nil => exact absurd rfl hne
  | cons c a ih =>
    intro x hx h
    obtain ⟨hc, ha⟩ := List.forall_mem_cons.1 ha
    rw [List.cons_append] at h
    rcases infix_append_cons hc h with h | h
    · exact hx h
    · by_cases hnil : a = []
      · subst hnil
        exact hy h
      · have hl : ¬l <:+: [] := fun h => hx (List.infix_nil.1 h ▸ List.nil_infix)
        exact ih hnil ha hl h

theorem Plain.insert {x a y : Text} (hx : x.Plain) (hy : y.Plain) (hne : a ≠ [])
    (ha : ∀ c ∈ a, c ∉ ['"', '/', '*']) : (x ++ (a ++ y)).Plain := by
  simp only [List.mem_cons, List.not_mem_nil, or_false, not_or] at ha
  refine ⟨?_, not_infix_insert hne ?_ hy.no_line hx.no_line,
    not_infix_insert hne ?_ hy.no_block hx.no_block⟩
  · rw [List.mem_append, List.mem_append]
    rintro (h | h | h)
    · exact hx.no_quote h
    · exact (ha _ h).1 rfl
    · exact hy.no_quote h
  · intro c hc
    simp [ha c hc]
  · intro c hc
    simp [ha c hc]

end Text

namespace Literal

theorem IsNumeral.not_mem {c : Char} (h : IsNumeral c) : c ∉ ['"', '/', '*'] := by
  intro hc
  simp only [List.mem_cons, List.not_mem_nil, or_false] at hc
  rcases hc with rfl | rfl | rfl <;> exact absurd h (by unfold IsNumeral; decide)

/-- Only a text has quotes and marks of comments in it. -/
theorem not_mem_of_literal? {type : ValueType} (htype : type ≠ .text) {t a r : Text}
    (h : type.literal? t = some (a, r)) : ∀ c ∈ a, c ∉ ['"', '/', '*'] := by
  cases type with
  | float => exact fun c hc => (isNumeral_float? h c hc).not_mem
  | int => exact fun c hc => (isNumeral_int? h c hc).not_mem
  | bool =>
    have hall : (["true".toList, "false".toList, "1".toList, "0".toList].all fun w =>
        w.all fun c => c != '"' && c != '/' && c != '*') = true := by decide
    intro c hc
    have := List.all_eq_true.1 (List.all_eq_true.1 hall a (bool?_mem h)) c hc
    simpa [and_assoc] using this
  | text => exact absurd rfl htype

end Literal

/-- Another literal for one parameter. -/
def Param.literalFor (p : Param) (l : Text) (q : Param) : Option Text :=
  if q.name = p.name then some l else none

theorem Param.literalFor_self (p : Param) (l : Text) : p.literalFor l p = some l :=
  if_pos rfl

namespace CallMatch
variable {m n : CallMatch} {x : Argument} {l : Text}

theorem eq_of_literalFor (hm : (m.args.map (·.param.name)).Nodup) (hx : x ∈ m.args) {y : Argument}
    (hy : y ∈ m.args) {l' : Text} (h : x.param.literalFor l y.param = some l') : y = x ∧ l' = l := by
  unfold Param.literalFor at h
  split at h
  · rename_i hname
    exact ⟨List.inj_on_of_nodup_map hm hy hx hname, (Option.some.inj h).symm⟩
  · simp at h

theorem Reworded.exists_cut {ps : List Param} (hlaid : m.Laid ps)
    (hm : (m.args.map (·.param.name)).Nodup) (hx : x ∈ m.args)
    (h : Reworded (x.param.literalFor l) m n) :
    ∃ u w, m.text = u ++ (x.literal ++ w) ∧ m.argumentRange x = ⟨u.size, u.size + x.literal.size⟩ ∧
      n.text = u ++ (l ++ w) := by
  obtain ⟨⟨_, _, hliteral⟩, u, w, ht, ho, -⟩ := hlaid.exists_argument x hx
  rw [ho] at ht
  have hrange : m.argumentRange x = ⟨u.size, u.size + x.literal.size⟩ := by
    simp only [argumentRange, ht, ho, Text.size_append, ByteRange.mk.injEq]
    omega
  have hfit := @TextEdit.Fit.cons 0 u x.literal w l [] .nil
  have hcut := TextEdit.applyFrom_cons 0 u x.literal w l []
  rw [Nat.zero_add, ← hrange, List.append_assoc, ← ht] at hfit hcut
  obtain ⟨hfit', happly⟩ := h.applyFrom_edits 0
  have hedits : [⟨m.argumentRange x, l⟩] = m.edits (x.param.literalFor l) 0 := by
    refine hfit.eq_of_mem_iff hfit' ?_ fun e => ?_
    · rw [List.forall_mem_singleton, hrange]
      exact Nat.lt_add_of_pos_right (Text.size_pos_of_ne_nil (ValueType.literal?_ne_nil hliteral))
    · rw [List.mem_singleton, mem_edits]
      constructor
      · rintro rfl
        exact ⟨x, hx, l, x.param.literalFor_self l, rfl⟩
      · rintro ⟨y, hy, l', hl, rfl⟩
        obtain ⟨rfl, rfl⟩ := eq_of_literalFor hm hx hy hl
        rfl
  refine ⟨u, w, ht, hrange, ?_⟩
  rw [← happly, ← hedits, hcut, TextEdit.applyFrom_nil, List.append_assoc]

end CallMatch

namespace CallShape

/-- A call in plain text is scanned by itself with another literal for one argument, and only the value
of this one is another one. -/
theorem Found.exists_replaced {kind : ActionKind} {t : Text} {m : CallMatch} {values : NameMap Value}
    {ranges : NameMap ByteRange} {a : Action} (h : (standard kind).Found t m)
    (he : m.extract? = some (values, ranges)) (ha : Action.ofParams? kind values = some a)
    {x : Argument} (hx : x ∈ m.args) {l : Text} {v : Value}
    (hl : x.param.type.literal? l = some (l, [])) (hv : x.param.type.read? l = some v) :
    ∃ u w n ranges' a', m.text = u ++ (x.literal ++ w) ∧
      m.argumentRange x = ⟨u.size, u.size + x.literal.size⟩ ∧ n.text = u ++ (l ++ w) ∧
      (standard kind).match? n.text = some n ∧ a'.kind = kind ∧
      a'.params = a.params.insert x.param.name v ∧
      scan n.text = [⟨a', ⟨0, n.text.size, n.text, ranges'⟩⟩] := by
  obtain ⟨hm, hplain⟩ := h
  obtain ⟨r, rfl⟩ := prefix_of_match? hm
  have hnodup := args_nodup hm
  have hliteral : ∀ y ∈ m.args, ∀ l', x.param.literalFor l y.param = some l' →
      y.param.type.IsLiteral l' ∧ (y.param.type.read? l').isSome = true := by
    intro y hy l' h
    obtain ⟨rfl, rfl⟩ := CallMatch.eq_of_literalFor hnodup hx hy h
    exact ⟨Literal.isLiteral_of_literal? hl, hv ▸ rfl⟩
  obtain ⟨n, hn, -, hr, hother⟩ := (tidy_of_match? hm hplain.left.no_block).exists_reworded hm
    fun y hy l' h => (hliteral y hy l' h).1
  obtain ⟨values', ranges', a', he', ha', hparams, -, hget⟩ :=
    exists_action_reworded hm he ha hn hr fun y hy l' h => (hliteral y hy l' h).2
  obtain ⟨u, w, htext, hrange, htext'⟩ := hr.exists_cut (laid_of_match? hm) hnodup hx
  have hscan := scan_eq_singleton hn (fun k hk => hother (standard k) hk)
    (ScannedCall.ofMatch?_eq_some_iff.2 ⟨values', ranges', a', he', ha', rfl⟩)
  rw [Nat.zero_add] at hscan
  refine ⟨u, w, n, ranges', a', htext, hrange, htext', hn, Action.kind_of_ofParams? ha', ?_, hscan⟩
  rw [hparams, params_eq_values hm he ha]
  refine (CallMatch.sorted_extract? he').1.ext ((CallMatch.sorted_extract? he).1.insert _ _) fun name => ?_
  by_cases hname : name = x.param.name
  · subst hname
    rw [NameMap.get?_insert_self, hget]
    exact ⟨x, hx, rfl, by rw [x.param.literalFor_self, Option.getD_some, hv]⟩
  · rw [NameMap.get?_insert_of_ne hname]
    ext w
    rw [hget, CallMatch.get?_values he hnodup]
    refine exists_congr fun y => and_congr_right fun _ => and_congr_right fun hy => ?_
    have hnone : x.param.literalFor l y.param = none := if_neg (hy ▸ hname)
    rw [hnone, Option.getD_none]

end CallShape

/-- A call between two texts is scanned with what is scanned on either side of it. -/
theorem scan_around_call {x z y : Text} (hp : (x ++ (z ++ y)).Plain) (hw : x.endsWord = true)
    (hopens : "auton".toList <+: z) (hcloses : z.getLast? = some ';') :
    scan (x ++ (z ++ y)) = scan x ++ ((scan z).map (ScannedCall.shift x.size)
      ++ ((scan y).map (ScannedCall.shift z.size)).map (ScannedCall.shift x.size)) := by
  have hclosed : ∀ c ∈ z.getLast?, c = ';' := by
    rw [hcloses]
    exact fun c hc => (Option.some.inj hc).symm
  rw [scan_append hp (.opening hw (hopens.trans (List.prefix_append z y))),
    scan_append hp.right (.closed hclosed), List.map_append]

namespace CallShape

theorem Found.type_ne_text {s : CallShape} {t : Text} {m : CallMatch} (h : s.Found t m) {x : Argument}
    (hx : x ∈ m.args) : x.param.type ≠ .text := by
  intro h0
  obtain ⟨⟨_, _, hliteral⟩, u, w, htext, honward, -⟩ := (laid_of_match? h.found).exists_argument x hx
  rw [h0] at hliteral
  obtain ⟨cs, -, heq⟩ := Literal.exists_of_text? hliteral
  refine h.plain.no_quote ((prefix_of_match? h.found).subset ?_)
  rw [htext, honward, heq]
  simp

theorem scan_beside {kind : ActionKind} {lead b : Text} {m : CallMatch} {c d : ScannedCall}
    (hp : (lead ++ (m.text ++ b)).Plain) (hw : lead.endsWord = true)
    (hm : (standard kind).match? m.text = some m) (hd : ScannedCall.ofMatch? kind 0 m = some d)
    (hscan : scan (lead ++ (m.text ++ b)) = [c]) : scan lead = [] ∧ scan b = [] := by
  have hmem : d ∈ scan m.text := (mem_scan_iff hp.right.left).2 ⟨kind, [], m.text, m, rfl, hm, hd, rfl⟩
  have hparts := scan_around_call hp hw (opens_of_match? hm) (laid_of_match? hm).getLast?_text
  have hlength := congrArg List.length (hscan.symm.trans hparts)
  have hpos := List.length_pos_of_mem hmem
  simp only [List.length_append, List.length_map, List.length_singleton] at hlength
  exact ⟨List.eq_nil_of_length_eq_zero (by omega), List.eq_nil_of_length_eq_zero (by omega)⟩

end CallShape

namespace ScannedCall
open CallShape (standard)

/-- A plain text that holds one call holds this call with another literal in place of one of its
literals, and no other one. -/
theorem exists_scan_replaced {t : Text} {c : ScannedCall} (ht : t.Plain) (hscan : scan t = [c])
    {p : Param} (hp : p ∈ (standard c.action.kind).params) {r : ByteRange}
    (hr : c.site.params.get? p.name = some r) {l : Text} {v : Value}
    (hl : p.type.literal? l = some (l, [])) (hv : p.type.read? l = some v) :
    ∃ x g y d, t = x ++ (g ++ y) ∧ x.size = c.site.start + r.start ∧
      (x ++ g).size = c.site.start + r.stop ∧ scan (x ++ (l ++ y)) = [d] ∧
      d.action.kind = c.action.kind ∧ d.action.params = c.action.params.insert p.name v ∧
      d.site.start = c.site.start ∧ d.site.stop + g.size = c.site.stop + l.size := by
  obtain ⟨kind, lead, rest, m, rfl, hm, hc, hw⟩ :=
    foundIn_of_mem_scan (hscan ▸ List.mem_singleton_self c)
  obtain rfl := kind_of_ofMatch? hc
  have hfound : (standard c.action.kind).Found rest m := ⟨hm, ht.right⟩
  have hself := hfound.append []
  rw [List.append_nil] at hself
  obtain ⟨values, ranges, a, he, ha, rfl⟩ := ofMatch?_eq_some_iff.1 hc
  obtain ⟨b, rfl⟩ := CallShape.prefix_of_match? hm
  obtain ⟨hlead, hb⟩ := CallShape.scan_beside ht hw hself
    (ofMatch?_eq_some_iff.2 ⟨values, ranges, a, he, ha, rfl⟩) hscan
  obtain ⟨x, hx, hname, hrange⟩ := (CallMatch.get?_ranges he (CallShape.args_nodup hm)).1 hr
  have hxp := (CallShape.laid_of_match? hm).params_isPrefix.subset (List.mem_map_of_mem hx)
  obtain rfl : x.param = p := List.inj_on_of_nodup_map (CallShape.names_nodup _) hxp hp hname
  obtain ⟨u, w, n, ranges', a', htext, hrange', htext', hn, hkind, hparams, hnscan⟩ :=
    hfound.exists_replaced he ha hx hl hv
  rw [hrange] at hrange'
  obtain rfl := hrange'
  have hassoc : lead ++ u ++ (l ++ (w ++ b)) = lead ++ (n.text ++ b) := by
    rw [htext']
    simp only [List.append_assoc]
  have hnew : (lead ++ (n.text ++ b)).Plain := by
    rw [← hassoc]
    refine .insert ?_ ?_ (ValueType.literal?_ne_nil hl)
      (Literal.not_mem_of_literal? (hfound.type_ne_text hx) hl)
    · exact ht.part ⟨[], x.literal ++ w ++ b, by rw [htext]; simp⟩
    · exact ht.part ⟨lead ++ u ++ x.literal, [], by rw [htext]; simp⟩
  have hnewscan := scan_around_call hnew hw (CallShape.opens_of_match? hn)
    (CallShape.laid_of_match? hn).getLast?_text
  rw [hlead, hb, hnscan] at hnewscan
  refine ⟨lead ++ u, x.literal, w ++ b, shift lead.size ⟨a', ⟨0, n.text.size, n.text, ranges'⟩⟩, ?_,
    Text.size_append _ _, ?_, hassoc ▸ hnewscan, hkind, hparams, Nat.zero_add _, ?_⟩
  · rw [htext]
    simp only [List.append_assoc]
  · simp only [Text.size_append]
    omega
  · simp only [shift, htext, htext', Text.size_append]
    omega

end ScannedCall

namespace Rescan.Surroundings
variable {t : Text} {c : TextChange}

section
variable {sites : List CallSite} {s : CallSite}

theorem mem_middle_of_inside (v : Surroundings t c sites) (hs : s ∈ sites) (hstart : s.start < c.offset)
    (hstop : c.stop < s.stop) : s ∈ v.middle := by
  have hle : c.offset ≤ c.stop := Nat.le_add_right _ _
  rw [v.sites_eq, List.mem_append, List.mem_append] at hs
  rcases hs with (hs | hs) | hs
  · have := v.left_lt s hs
    omega
  · exact hs
  · have := v.lt_right s hs
    omega

/-- A change inside a call touches this call only. -/
theorem middle_eq_singleton (v : Surroundings t c sites) (h : Anchored t sites) (hs : s ∈ sites)
    (hstart : s.start < c.offset) (hstop : c.stop < s.stop) : v.middle = [s] := by
  have hmem := v.mem_middle_of_inside hs hstart hstop
  have hsub : v.middle.Sublist sites := by
    conv => rhs; rw [v.sites_eq]
    rw [List.append_assoc]
    exact (List.sublist_append_left _ _).trans (List.sublist_append_right _ _)
  have heq : ∀ q ∈ v.middle, q = s := by
    intro q hq
    obtain ⟨h1, h2⟩ := v.touches q hq
    rcases eq_or_of_pairwise h.ordered (hsub.subset hq) hs with rfl | hqs | hsq
    · rfl
    · omega
    · omega
  have hmiddle : v.middle.Pairwise fun a b => a.stop ≤ b.start := h.ordered.sublist hsub
  cases hm : v.middle with
  | nil => simp [hm] at hmem
  | cons a rest =>
    rw [hm] at heq hmiddle
    obtain rfl := heq a List.mem_cons_self
    cases rest with
    | nil => rfl
    | cons b _ =>
      -- two calls would be the same one, which cannot stand before itself
      have hab := (List.pairwise_cons.1 hmiddle).1 b List.mem_cons_self
      rw [heq b (List.mem_cons_of_mem _ List.mem_cons_self)] at hab
      exact absurd (v.start_lt_stop _ hs) (Nat.not_lt_of_le hab)

theorem length_left_eq (v : Surroundings t c sites) (h : Anchored t sites) (hm : v.middle = [s]) {i : Nat}
    (hi : sites[i]? = some s) : v.left.length = i := by
  have hnodup : sites.Nodup := h.ordered.imp_of_mem fun {a b} ha _ hab heq => by
    have := v.start_lt_stop a ha
    rw [← heq] at hab
    omega
  have hsites : sites = v.left ++ ([s] ++ v.right) := by
    rw [← List.append_assoc, ← hm]
    exact v.sites_eq
  have hat : sites[v.left.length]? = some s := by
    refine (congrArg (fun l => l[v.left.length]?) hsites).trans ?_
    simp
  obtain ⟨hlt, -⟩ := List.getElem?_eq_some_iff.1 hat
  exact (List.getElem?_inj hlt hnodup).1 (hat.trans hi.symm)

end

theorem exists_scan_middle (v : Surroundings t c ((scan t).map (·.site))) (hp : t.Plain)
    {d : ScannedCall} (hd : d ∈ scan t) (hm : v.middle = [d.site]) :
    ∃ d', scan (v.lead ++ v.gone ++ v.trail) = [d'] ∧ d'.shift v.fore.size = d := by
  have hscan := v.scan_eq hp
  have hsites := v.sites_eq
  rw [hm, v.left_eq hp, v.right_eq hp] at hsites
  conv at hsites => lhs; rw [hscan]
  rw [List.map_append, List.map_append, List.map_map (l := scan v.rear)] at hsites
  have hmiddle := List.append_cancel_left (List.append_cancel_right hsites)
  obtain ⟨d', hd'⟩ : ∃ d', scan (v.lead ++ v.gone ++ v.trail) = [d'] := by
    have := congrArg List.length hmiddle
    simp only [List.length_map, List.length_singleton] at this
    exact List.length_eq_one_iff.1 this
  refine ⟨d', hd', ?_⟩
  rw [hd'] at hmiddle hscan
  have hsite : (d'.shift v.fore.size).site = d.site := List.singleton_inj.1 hmiddle
  have hmem : d'.shift v.fore.size ∈ scan t :=
    (congrArg (d'.shift v.fore.size ∈ ·) hscan).mpr (by simp)
  have hlt := (foundIn_of_mem_scan hd).start_lt_stop
  rcases ScannedCall.eq_or_apart (pairwise_scan t) hmem hd with h | h | h
  · exact h
  · rw [hsite] at h
    omega
  · rw [hsite] at h
    omega

end Rescan.Surroundings

theorem Rescan.inheritIds_cons {s : Step} {ss replaced : List Step} {i : Nat}
    (h : replaced.findIdx? (fun old => old.kind == s.kind) = some i) :
    inheritIds (s :: ss) replaced
      = { s with id := (replaced[i]?.map (·.id)).getD s.id } :: inheritIds ss (replaced.eraseIdx i) := by
  rw [inheritIds, h]

theorem freshSteps_singleton {d : ScannedCall} {s : Step} (h : s.kind = d.action.kind) (bias : Nat)
    (supply : IdSupply) :
    freshSteps [d] bias supply [s] = [⟨s.id, d.action, some (d.shift bias).site⟩] := by
  have hfind : [s].findIdx? (fun old => old.kind == ((d.shift bias).stepWith supply.next).kind)
      = some 0 := by
    rw [List.findIdx?_cons, h]
    exact if_pos (beq_self_eq_true _)
  exact Rescan.inheritIds_cons hfind

theorem exists_call_of_getElem? {t : Text} {supply : IdSupply} {i : Nat} {s : Step}
    (h : ((scanSteps t 0).run supply).1[i]? = some s) :
    ∃ d, (scan t)[i]? = some d ∧ s.action = d.action ∧ s.site = some d.site := by
  rw [run_scanSteps, List.getElem?_map, List.getElem?_zipIdx, Option.map_map] at h
  obtain ⟨d, hd, rfl⟩ := Option.map_eq_some_iff.1 h
  exact ⟨d, hd, rfl, rfl⟩

theorem sites_scanSteps (t : Text) (supply : IdSupply) :
    ((scanSteps t 0).run supply).1.map (·.site) = ((scan t).map (·.site)).map some := by
  have hsites := site_freshSteps (scan t) 0 supply []
  rw [freshSteps, Rescan.map_inheritIds (·.site) (fun _ _ => rfl)] at hsites
  rw [run_scanSteps]
  exact hsites

theorem CallSite.StandsIn.change_inside {s : CallSite} {t : Text} (h : s.StandsIn t) {name : String}
    {range : ByteRange} (hr : s.paramRange? name = some range) (l : Text) :
    let c : TextChange := ⟨range.start, range.stop - range.start, l⟩
    c.fits t = true ∧ s.start < c.offset ∧ c.stop < s.stop ∧ c.stop = range.stop := by
  intro c
  obtain ⟨r, hget, rfl⟩ := Option.map_eq_some_iff.1 hr
  obtain ⟨x, g, y, htext, hreq, hx, -, hy⟩ := h.proper.inside _ (NameMap.mem_of_get? hget)
  obtain rfl : r = ⟨x.size, x.size + g.size⟩ := hreq
  have htext : s.text = x ++ g ++ y := htext
  have hxpos := Text.size_pos_of_ne_nil hx
  have hypos := Text.size_pos_of_ne_nil hy
  have hoffset : c.offset = s.start + x.size := rfl
  have hstop : c.stop = s.start + (x.size + g.size) := by
    simp only [c, TextChange.stop]
    omega
  refine ⟨?_, by omega, ?_, hstop⟩
  · obtain ⟨b, b', rfl, hb⟩ := h.stands
    rw [TextChange.fits, Bool.and_eq_true, Text.isPlace_iff, Text.isPlace_iff, hoffset, hstop, htext]
    refine ⟨⟨b ++ x, g ++ y ++ b', by simp, ?_⟩, ⟨b ++ x ++ g, y ++ b', by simp, ?_⟩⟩
    · rw [Text.size_append, hb]
    · rw [Text.size_append, Text.size_append, hb, Nat.add_assoc]
  · rw [h.stop_eq, htext, Text.size_append, Text.size_append]
    omega

open CallShape (standard) in
/-- The change of one literal in plain text asks for the replacement of one step. It keeps its identity
and its kind, only the value of the literal is another one, and its end moves with the text. -/
theorem plan_of_literal {t : Text} (ht : t.Plain) {supply supply' : IdSupply} {i : Nat} {s : Step}
    (hs : ((scanSteps t 0).run supply).1[i]? = some s) {site : CallSite} (hsite : s.site = some site)
    {p : Param} (hp : p ∈ (standard s.kind).params) {range : ByteRange}
    (hrange : site.paramRange? p.name = some range) {l : Text} {v : Value}
    (hl : p.type.literal? l = some (l, [])) (hv : p.type.read? l = some v) :
    let c : TextChange := ⟨range.start, range.stop - range.start, l⟩
    let plan := ((Rescan.plan ((scanSteps t 0).run supply).1 c t).run supply').1
    ∃ a site', plan.edit = ⟨i, 1, [⟨s.id, a, some site'⟩]⟩ ∧ a.kind = s.kind ∧
      a.params = s.action.params.insert p.name v ∧ site'.start = site.start ∧
      (site'.stop : Int) = site.stop + c.delta ∧ plan.driftFrom = i + 1 ∧
      plan.drift = ⟨c.stop, c.delta⟩ := by
  intro c plan
  have hsites := sites_scanSteps t supply
  have hanchored := anchored_scan t
  obtain ⟨d, hd, haction, hdsite⟩ := exists_call_of_getElem? hs
  obtain rfl : site = d.site := Option.some.inj (hsite.symm.trans hdsite)
  have hmem := List.mem_of_getElem? hd
  have hstands := hanchored.stands _ (List.mem_map_of_mem hmem)
  obtain ⟨hfits, hstart, hstop, hcstop⟩ := hstands.change_inside hrange l
  obtain ⟨w⟩ := Rescan.nonempty_surroundings hanchored hfits
  have hmiddle := w.middle_eq_singleton hanchored (List.mem_map_of_mem hmem) hstart hstop
  have hleft := w.length_left_eq hanchored hmiddle (i := i) (by rw [List.getElem?_map, hd]; rfl)
  obtain ⟨e, hescan, hshift⟩ := w.exists_scan_middle ht hmem hmiddle
  have heaction : e.action = d.action := congrArg (·.action) hshift
  have heparams : e.site.params = d.site.params := congrArg (·.site.params) hshift
  have hestart : e.site.start + w.fore.size = d.site.start := congrArg (·.site.start) hshift
  have hestop : e.site.stop + w.fore.size = d.site.stop := congrArg (·.site.stop) hshift
  have hskind : s.kind = e.action.kind := by rw [Step.kind, haction, heaction]
  obtain ⟨r, hr, rfl⟩ := Option.map_eq_some_iff.1 hrange
  have hcoffset : c.offset = d.site.start + r.start := rfl
  have hcstop : c.stop = d.site.start + r.stop := hcstop
  have hplain : (w.lead ++ w.gone ++ w.trail).Plain :=
    ht.part ⟨w.fore, w.rear, by simpa only [List.append_assoc] using w.text_eq.symm⟩
  obtain ⟨x', g', y', f, heq, hx', hg', hfscan, hfkind, hfparams, hfstart, hfstop⟩ :=
    ScannedCall.exists_scan_replaced hplain hescan (hskind ▸ hp) (heparams ▸ hr) hl hv
  -- the parts of the text around the change are those around the literal
  have hwoffset := hcoffset.symm.trans w.offset_eq
  have hwstop := hcstop.symm.trans w.stop_eq
  simp only [Text.size_append] at hwoffset hwstop hx' hg'
  rw [List.append_assoc] at heq
  obtain ⟨hlead, heq⟩ := Text.append_inj_of_size heq (by omega)
  obtain ⟨hgone, htrail⟩ := Text.append_inj_of_size heq (by rw [hlead] at hwstop hwoffset; omega)
  have hreplaced : (((scanSteps t 0).run supply).1.drop i).take 1 = [s] := by
    rw [List.take_one, List.head?_drop, hs]
    rfl
  have hplan := congrArg Prod.fst (w.run_plan hsites supply')
  rw [hlead, htrail, List.append_assoc] at hplan
  have hplan : plan = _ := hplan
  rw [show c.text = l from rfl, hfscan, hmiddle, hleft, List.length_singleton, hreplaced,
    freshSteps_singleton (hskind.trans hfkind.symm)] at hplan
  refine ⟨f.action, (f.shift w.fore.size).site, by rw [hplan], hfkind.trans hskind.symm, ?_, ?_, ?_,
    by rw [hplan], by rw [hplan]⟩
  · rw [hfparams, heaction, haction]
  · simp only [ScannedCall.shift]
    omega
  · simp only [ScannedCall.shift, TextChange.delta, c]
    rw [← hgone] at hfstop
    omega

def brokenText : Text := "auton::wait(5); auton::wait(7".toList

theorem plan_of_literal_broken :
    let steps := ((scanSteps brokenText 0).run ⟨0⟩).1
    ∃ s site a site', brokenText.Plain ∧ steps[0]? = some s ∧ s.site = some site ∧
      (.need "milliseconds" .int) ∈ (CallShape.standard s.kind).params ∧
      site.paramRange? "milliseconds" = some ⟨12, 13⟩ ∧
      ((Rescan.plan steps ⟨12, 1, "250".toList⟩ brokenText).run ⟨2⟩).1.edit
        = ⟨0, 1, [⟨s.id, a, some site'⟩]⟩ ∧
      a.params = s.action.params.insert "milliseconds" (.int 250) ∧
      (site'.stop : Int) = site.stop + 2 := by
  intro steps
  have hcall : (steps[0]?.map fun s => (s.kind, s.site.bind (·.paramRange? "milliseconds")))
      = some (.wait, some ⟨12, 13⟩) := by decide +kernel
  obtain ⟨s, hs, heq⟩ := Option.map_eq_some_iff.1 hcall
  obtain ⟨hkind, hrange⟩ := Prod.mk.inj heq
  obtain ⟨site, hsite, hrange⟩ := Option.bind_eq_some_iff.1 hrange
  have hplain : brokenText.Plain := by decide +kernel
  have hp : .need "milliseconds" .int ∈ (CallShape.standard s.kind).params := by
    rw [hkind]
    exact List.mem_singleton_self _
  obtain ⟨a, site', hedit, -, hparams, -, hstop, -⟩ := @plan_of_literal brokenText hplain ⟨0⟩ ⟨2⟩ 0 s hs
    site hsite (.need "milliseconds" .int) hp ⟨12, 13⟩ hrange "250".toList (.int 250)
    (by decide +kernel) (by decide +kernel)
  exact ⟨s, site, a, site', hplain, hs, hsite, hp, hrange, hedit, hparams, hstop⟩

end RoutineSync
