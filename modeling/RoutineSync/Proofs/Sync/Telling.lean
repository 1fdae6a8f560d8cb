import RoutineSync.Proofs.Sync.InPlace
/-!
Calls that tell an action: read by themselves, they give the action with what is left out before a
parameter that is given, up to numbers that are equal. What is written for an action tells it, and a
call that tells an action and is patched for another one tells that one.
-/
set_option autoImplicit false

namespace RoutineSync

theorem Binary64.eqv_trans {x y z : Binary64} (hxy : x.eqv y = true) (hyz : y.eqv z = true) :
    x.eqv z = true := by
  cases x <;> cases y <;> cases z <;> simp_all [eqv]
  grind

theorem Value.eqv_trans {u v w : Value} (huv : u.eqv v = true) (hvw : v.eqv w = true) :
    u.eqv w = true := by
  cases u <;> cases v <;> cases w <;> simp_all [eqv]
  exact Binary64.eqv_trans huv hvw

theorem NameMap.mem_zip_of_get? {α β : Type} {m : NameMap α} {n : NameMap β} (h : m.names = n.names)
    {name : String} {v : α} {w : β} (hv : m.get? name = some v) (hw : n.get? name = some w) :
    ((name, v), (name, w)) ∈ m.zip n := by
  induction m generalizing n with
  | nil => simp [get?] at hv
  | cons e m ih =>
    cases n with
    | nil => simp [get?] at hw
    | cons f n =>
      obtain ⟨a, v'⟩ := e
      obtain ⟨b, w'⟩ := f
      obtain ⟨rfl, hnames⟩ := List.cons.inj h
      rw [List.zip_cons_cons]
      rw [get?] at hv hw
      by_cases ha : a = name
      · rw [if_pos ha] at hv hw
        rw [← ha, Option.some.inj hv, Option.some.inj hw]
        exact List.mem_cons_self
      · rw [if_neg ha] at hv hw
        exact List.mem_cons_of_mem _ (ih hnames hv hw)

namespace Action

theorem eqv_iff {a b : Action} : a.eqv b = true ↔ a.kind = b.kind ∧ a.params.names = b.params.names ∧
    ∀ name v w, a.params.get? name = some v → b.params.get? name = some w → v.eqv w = true := by
  refine ⟨fun h => ?_, fun ⟨hkind, hnames, hvalues⟩ => eqv_of_get? hkind hnames hvalues⟩
  simp only [eqv, Bool.and_eq_true, beq_iff_eq, List.all_eq_true] at h
  obtain ⟨⟨hkind, hnames⟩, hvalues⟩ := h
  exact ⟨hkind, hnames, fun name v w hv hw => hvalues _ (NameMap.mem_zip_of_get? hnames hv hw)⟩

section
open CallShape (standard)
variable {a b : Action}

theorem sorted_filledParams (a : Action) : a.filledParams.Sorted := NameMap.sorted_ofList _

theorem mem_filledParams_iff {e : String × Value} : e ∈ a.filledParams ↔
    ∃ f ∈ CallShape.filled a.params (standard a.kind).params, f.1.name = e.1 ∧ f.2 = e.2 := by
  have hnodup : (((CallShape.filled a.params (standard a.kind).params).map fun e =>
      (e.1.name, e.2)).map (·.1)).Nodup := by simpa [Function.comp_def] using a.nodup_filled
  rw [filledParams, (NameMap.perm_ofList hnodup).mem_iff, List.mem_map]
  simp only [Prod.ext_iff]

theorem kind_filled (a : Action) : a.filled.kind = a.kind := kind_of_ofParams? a.ofParams?_filled

theorem params_filled (a : Action) : a.filled.params = a.filledParams := by
  refine params_eq a.ofParams?_filled a.sorted_filledParams fun e he => ?_
  obtain ⟨f, hf, hname, hv⟩ := mem_filledParams_iff.1 he
  exact ⟨f.1, CallShape.mem_standard.1 (CallShape.value_of_mem_filled hf).1, hname,
    hv ▸ type_of_mem_filled hf⟩

/-- A parameter that is written has its value, or else its default. -/
theorem get?_filled_iff {name : String} {v : Value} :
    a.filled.params.get? name = some v ↔
      ∃ p ∈ (standard a.kind).params.take ((standard a.kind).writtenCount a.params), p.name = name ∧
        (a.params.get? name).or p.default = some v := by
  have hwritten := CallShape.map_filled_eq_take (complete_of_ofParams? a.ofParams?_params)
  rw [params_filled, a.sorted_filledParams.get?_eq_some_iff, mem_filledParams_iff, ← hwritten]
  constructor
  · rintro ⟨e, he, rfl, rfl⟩
    exact ⟨e.1, List.mem_map_of_mem he, rfl, (CallShape.value_of_mem_filled he).2⟩
  · rintro ⟨p, hp, rfl, hv⟩
    obtain ⟨e, he, rfl⟩ := List.mem_map.1 hp
    exact ⟨e, he, rfl, Option.some.inj ((CallShape.value_of_mem_filled he).2.symm.trans hv)⟩

theorem mem_names_filled_iff {name : String} : name ∈ a.filled.params.names ↔
    ∃ p ∈ (standard a.kind).params.take ((standard a.kind).writtenCount a.params), p.name = name := by
  rw [← NameMap.contains_eq_true_iff, NameMap.contains, Option.isSome_iff_exists]
  simp only [get?_filled_iff]
  constructor
  · rintro ⟨v, p, hp, hname, -⟩
    exact ⟨p, hp, hname⟩
  · rintro ⟨p, hp, rfl⟩
    obtain ⟨v, hv⟩ := (complete_of_ofParams? a.ofParams?_params).exists_value (List.mem_of_mem_take hp)
    exact ⟨v, p, hp, rfl, hv⟩

theorem names_filled_congr (hkind : a.kind = b.kind) (hnames : a.params.names = b.params.names) :
    a.filled.params.names = b.filled.params.names := by
  refine a.filled.sorted_params.names_eq b.filled.sorted_params fun name => ?_
  simp only [mem_names_filled_iff, CallShape.mem_take_written, hkind, NameMap.contains_congr hnames]

end

end Action

namespace CallShape

theorem mem_of_suffix {α : Type} {x y ps : List α} {p q : α} (hn : (x ++ y).Nodup) (hps : p :: ps <:+ x ++ y)
    (hq : q ∈ p :: ps) (hx : q ∈ x) : p ∈ x := by
  have hapart := (List.nodup_append.1 hn).2.2
  obtain ⟨u, hu⟩ := hps
  rcases List.append_eq_append_iff.1 hu with ⟨z, rfl, hz⟩ | ⟨z, rfl, rfl⟩
  · cases z with
    | nil =>
      rw [List.nil_append] at hz
      exact absurd rfl (hapart q hx q (hz ▸ hq))
    | cons r z =>
      rw [(List.cons.inj hz).1]
      exact List.mem_append_right _ List.mem_cons_self
  · exact absurd rfl (hapart q hx q (List.mem_append_right _ hq))

section
variable {kind : ActionKind} {t : Text} {m : CallMatch} {values : NameMap Value} {ranges : NameMap ByteRange}
  {a : Action}

/-- The parameters that would be written for an action that is read are the ones that it was read
from. -/
theorem mem_take_written_of_match? (hm : (standard kind).match? t = some m)
    (he : m.extract? = some (values, ranges)) (ha : Action.ofParams? kind values = some a) {p : Param} :
    p ∈ (standard kind).params.take ((standard kind).writtenCount values) ↔ p ∈ m.args.map (·.param) := by
  have hbegin := (laid_of_match? hm).params_isPrefix
  obtain ⟨_, -, -, hperm⟩ := CallMatch.perm_values he (args_nodup hm)
  have hnames : m.args.map (·.param.name) = (m.args.map (·.param)).map (·.name) := by simp
  have hgiven : ∀ q ∈ (standard kind).params, q.optional = false ∨ values.contains q.name = true →
      q ∈ m.args.map (·.param) := by
    intro q hq h
    have hcontains : values.contains q.name = true := by
      rcases h with h | h
      · have := Action.complete_of_ofParams? ha q hq
        rwa [h, if_neg Bool.false_ne_true] at this
      · exact h
    rw [NameMap.contains_eq_true_iff, hperm.mem_iff, hnames] at hcontains
    obtain ⟨r, hr, hname⟩ := List.mem_map.1 hcontains
    rwa [← List.inj_on_of_nodup_map (names_nodup kind) (hbegin.subset hr) hq hname]
  constructor
  · intro h
    obtain ⟨ps, hps, q, hq, hwritten⟩ := mem_take_written.1 h
    obtain ⟨y, hy⟩ := hbegin
    have hx := hgiven q (hps.subset hq) hwritten
    rw [← hy] at hps
    exact mem_of_suffix (hy ▸ (names_nodup kind).of_map _) hps hq hx
  · intro h
    refine mem_take_of_written (hbegin.subset h) (.inr ?_)
    rw [NameMap.contains_eq_true_iff, hperm.mem_iff, hnames]
    exact List.mem_map_of_mem h

/-- What is read from a call is what would be written. -/
theorem eqv_filled_of_match? (hm : (standard kind).match? t = some m)
    (he : m.extract? = some (values, ranges)) (ha : Action.ofParams? kind values = some a) :
    a.eqv a.filled = true := by
  obtain rfl := Action.kind_of_ofParams? ha
  have hvalues := params_eq_values hm he ha
  have hnodup := args_nodup hm
  refine Action.eqv_iff.2 ⟨a.kind_filled.symm, ?_, fun name v w hv hw => ?_⟩
  · refine a.sorted_params.names_eq a.filled.sorted_params fun name => ?_
    obtain ⟨_, -, -, hperm⟩ := CallMatch.perm_values he hnodup
    rw [Action.mem_names_filled_iff, hvalues, hperm.mem_iff]
    simp only [mem_take_written_of_match? hm he ha, List.mem_map, exists_exists_and_eq_and]
  · obtain ⟨p, -, rfl, hpw⟩ := Action.get?_filled_iff.1 hw
    rw [hv, Option.some_or] at hpw
    obtain rfl := Option.some.inj hpw
    rw [hvalues, CallMatch.get?_values he hnodup] at hv
    obtain ⟨x, hx, -, hread⟩ := hv
    exact Value.eqv_self_of_read? (Piece.spells_of_accepts ((laid_of_match? hm).exists_argument x hx).1) hread

end

end CallShape

/-- What is written for the value does not say the word that calls start with. -/
def Value.Silent (v : Value) : Prop := ∀ n, ¬v.source.Opens n

/-- No value of the action does. -/
def Action.Silent (a : Action) : Prop := ∀ e ∈ a.params, e.2.Silent

namespace CallShape
open Text (Seam opens_append_iff)
variable {a : Action}

theorem silent_default {kind : ActionKind} {p : Param} (hp : p ∈ (standard kind).params) {v : Value}
    (hv : p.default = some v) : v.Silent := by
  have hall : ∀ kind ∈ ActionKind.all, ∀ p ∈ (standard kind).params, ∀ v ∈ p.default,
      ¬"auton".toList <:+: v.source := by decide +kernel
  exact fun n hn => hall kind (ActionKind.mem_all _) p hp v hv hn.isInfix

theorem silent_of_mem_filled (ha : a.Silent) {e : Param × Value}
    (he : e ∈ filled a.params (standard a.kind).params) : e.2.Silent := by
  obtain ⟨hp, hv⟩ := value_of_mem_filled he
  rcases Option.or_eq_some_iff.1 hv with hv | ⟨-, hv⟩
  · exact ha _ (NameMap.mem_of_get? hv)
  · exact silent_default hp hv

theorem haltsWord_argumentsMatch (es : List (Param × Value)) :
    (argumentsMatch false es).text.haltsWord = true := by
  cases es <;> rfl

theorem not_opens_argumentsMatch (first : Bool) {es : List (Param × Value)} (hes : ∀ e ∈ es, e.2.Silent)
    (n : Nat) : ¬(argumentsMatch first es).text.Opens n := by
  induction es generalizing first n with
  | nil => exact fun hn => absurd hn.isInfix (show ¬"auton".toList <:+: ");".toList by decide)
  | cons e es ih =>
    obtain ⟨he, hes⟩ := List.forall_mem_cons.1 hes
    intro hn
    have htext : (argumentsMatch first (e :: es)).text
        = (if first then [] else [',', ' ']) ++ (e.2.source ++ (argumentsMatch false es).text) := rfl
    rw [htext, opens_append_iff (.inl (by cases first <;> decide))] at hn
    rcases hn with hn | ⟨k, -, hn⟩
    · cases first <;> exact absurd hn.isInfix (by decide)
    rcases (opens_append_iff (.inr (haltsWord_argumentsMatch es))).1 hn with hn | ⟨k, -, hn⟩
    · exact he _ hn
    · exact ih false hes _ hn

end CallShape

theorem Action.opens_written_iff {a : Action} (ha : a.Silent) {n : Nat} :
    a.written.text.Opens n ↔ n = 0 := by
  let name : Text := "::".toList ++ (a.kind.callName.toList ++ ['('])
  have hname : ¬"auton".toList <:+: name := by
    have hall : ∀ kind ∈ ActionKind.all,
        ¬"auton".toList <:+: "::".toList ++ (kind.callName.toList ++ ['(']) := by decide +kernel
    exact hall a.kind (ActionKind.mem_all _)
  have hrest : ∀ k, ¬Text.Opens (name ++ (CallShape.argumentsMatch true
      (CallShape.filled a.params (CallShape.standard a.kind).params)).text) k := by
    intro k hk
    have hend : name.endsWord = true := by
      rw [Text.endsWord_append (by simp), Text.endsWord_append (by simp)]
      decide
    rcases (Text.opens_append_iff (.inl hend)).1 hk with hk | ⟨j, -, hj⟩
    · exact hname hk.isInfix
    · exact CallShape.not_opens_argumentsMatch true (fun _ he => CallShape.silent_of_mem_filled ha he) j hj
  have htext : a.written.text = "auton".toList ++ (name ++ (CallShape.argumentsMatch true
      (CallShape.filled a.params (CallShape.standard a.kind).params)).text) := by
    rw [a.text_written, a.text_found]
    simp only [name, List.append_assoc]
  rw [htext, Text.opens_append_iff (.inr rfl), Text.opens_word_iff]
  exact or_iff_left fun ⟨k, _, hk⟩ => hrest k hk

open CallShape (standard)

/-- The call has no block comments and, read by itself, tells the action, with what is left out before
a parameter that is given. -/
def CallText.Tells (c : CallText) (a : Action) : Prop :=
  ∃ m values b, m.text = c.text ∧ (standard a.kind).Unblocked m ∧ m.extract? = some (values, c.params) ∧
    Action.ofParams? a.kind values = some b ∧ b.eqv a.filled = true

namespace Action
variable {a b : Action}

theorem writable_filled (h : a.Writable) : a.filled.Writable := by
  rw [Writable, params_filled]
  intro e he
  obtain ⟨f, hf, -, hv⟩ := mem_filledParams_iff.1 he
  exact hv ▸ (CallShape.sound_of_mem_filled h hf).writable

theorem eqv_self (h : a.Writable) : a.eqv a = true := by
  refine eqv_iff.2 ⟨rfl, rfl, fun name v w hv hw => ?_⟩
  obtain rfl := Option.some.inj (hv.symm.trans hw)
  exact Value.eqv_self (h _ (NameMap.mem_of_get? hv))

theorem tells_written (h : a.Writable) : a.written.Tells a :=
  ⟨a.found, a.filledParams, a.filled, a.text_written.symm, unblocked_found h, extract?_found h,
    a.ofParams?_filled, eqv_self (writable_filled h)⟩

/-- A value that is not rewritten means the same in both actions, whether it is given or a default. -/
theorem eqv_filled_of_not_rewritten {before after : Action} (hkind : before.kind = after.kind)
    (hnames : before.params.names = after.params.names) {name : String}
    (hsame : CallSite.rewritten? before.params after.params name = none) {u w : Value}
    (hu : before.filled.params.get? name = some u) (hafter : after.filled.params.get? name = some w) :
    u.eqv w = true := by
  obtain ⟨p, hp, hpname, hpu⟩ := get?_filled_iff.1 hu
  obtain ⟨q, hq, hqname, hqw⟩ := get?_filled_iff.1 hafter
  replace hp := List.mem_of_mem_take hp
  replace hq := List.mem_of_mem_take hq
  rw [hkind] at hp
  obtain rfl := List.inj_on_of_nodup_map (CallShape.names_nodup after.kind) hp hq (hpname.trans hqname.symm)
  cases hx : before.params.get? name with
  | none =>
    have hy : after.params.get? name = none := by
      rwa [NameMap.get?_eq_none_iff, ← hnames, ← NameMap.get?_eq_none_iff]
    rw [hx, Option.none_or] at hpu
    rw [hy, Option.none_or] at hqw
    obtain rfl := Option.some.inj (hpu.symm.trans hqw)
    exact Value.eqv_self (CallShape.default_sound hp hpu).2
  | some x =>
    have hname : name ∈ after.params.names := by
      rw [← hnames, ← NameMap.contains_eq_true_iff, NameMap.contains, hx]
      rfl
    obtain ⟨y, hy⟩ := Option.isSome_iff_exists.1 (NameMap.contains_eq_true_iff.2 hname)
    rw [hx, Option.some_or] at hpu
    rw [hy, Option.some_or] at hqw
    obtain rfl := Option.some.inj hpu
    obtain rfl := Option.some.inj hqw
    refine Decidable.byContradiction fun hne => ?_
    have hdiffer := CallSite.rewritten?_eq_some_iff.2 ⟨x, hx, hy, by simpa using hne⟩
    rw [hsame] at hdiffer
    exact absurd hdiffer (by simp)

/-- Where the values that differ are rewritten, a value that has meant the same as one of an action
means the same as that of the other. -/
theorem eqv_filled_of_rewritten {before after : Action} (hw : after.Writable)
    (hkind : before.kind = after.kind) (hnames : before.params.names = after.params.names)
    {name : String} {v u w : Value} (hu : before.filled.params.get? name = some u)
    (hv : v.eqv u = true) (hafter : after.filled.params.get? name = some w) :
    ((CallSite.rewritten? before.params after.params name).getD v).eqv w = true := by
  cases hrewritten : CallSite.rewritten? before.params after.params name with
  | some w' =>
    obtain ⟨-, -, hw', -⟩ := CallSite.rewritten?_eq_some_iff.1 hrewritten
    obtain ⟨q, -, -, hqw⟩ := get?_filled_iff.1 hafter
    rw [hw', Option.some_or] at hqw
    obtain rfl := Option.some.inj hqw
    exact Value.eqv_self (hw _ (NameMap.mem_of_get? hw'))
  | none => exact Value.eqv_trans hv (eqv_filled_of_not_rewritten hkind hnames hrewritten hu hafter)

end Action

/-- An edit that rewrites a literal of the call, which stands apart, and does not write the word that
calls start with. -/
structure CallSite.Rewording (s : CallSite) (e : TextEdit) where
  lead : Text
  literal : Text
  behind : Char
  rest : Text
  text_eq : s.text = lead ++ (literal ++ behind :: rest)
  range_eq : e.range = ⟨s.start + lead.size, s.start + (lead.size + literal.size)⟩
  lead_ne : lead ≠ []
  literal_ne : literal ≠ []
  lead_endsWord : lead.endsWord = true
  isBehind : Literal.Behind behind
  not_behind : ∀ d, literal.head? = some d → ¬Literal.Behind d
  silent : ∀ n, ¬e.text.Opens n

namespace CallText.Tells
variable {s site : CallSite} {before after : Action} {edits : List TextEdit}

/-- A call that tells an action and is patched for another one tells that one. -/
theorem patchTo (h : Tells ⟨s.text, s.params⟩ before) (hp : s.patchTo before after = .ok (edits, site)) :
    Tells ⟨site.text, site.params⟩ after := by
  have hw := CallSite.exists_patchTo_iff.1 ⟨_, hp⟩
  obtain ⟨ps, found, values', ranges', hkind, hps, hfound, hex, -, rfl⟩ | ⟨call, hcall, -, rfl⟩ :=
    CallSite.kept_or_anew hp
  · obtain ⟨m, values, b, htext, hm, he, hb, heqv⟩ := h
    replace htext : m.text = s.text := htext
    rw [hkind] at hm hb
    have hmatch := hm.match?_append []
    rw [List.append_nil] at hmatch
    have hranged : CallText.Ranged ⟨s.text, s.params⟩ :=
      htext ▸ (CallShape.proper_of_match? hmatch he).ranged
    obtain ⟨hnames, -⟩ := CallSite.mem_patches? hranged hps
    obtain ⟨n, hn, hr⟩ := hm.reworded (f := ScannedCall.rewording before.params after.params)
      fun x hx l hl => (ScannedCall.isLiteral_of_rewording hw hmatch hx hl).1
    have hmatch' := hn.match?_append []
    rw [List.append_nil] at hmatch'
    rw [ScannedCall.patched_eq_text hmatch he htext.symm hps hr] at hfound ⊢
    obtain rfl := Option.some.inj (hmatch'.symm.trans hfound)
    obtain ⟨vs, rs, a, he', ha, hparams, hvs, hget⟩ :=
      ScannedCall.exists_values_reworded hw hmatch he hb hmatch' hr
    obtain ⟨rfl, rfl⟩ := Prod.mk.inj (Option.some.inj (he'.symm.trans hex))
    refine ⟨n, vs, a, rfl, hn, he', ha, ?_⟩
    have hvalues := CallShape.params_eq_values hmatch he hb
    obtain ⟨-, hbnames, hbvalues⟩ := Action.eqv_iff.1 heqv
    refine Action.eqv_iff.2 ⟨(Action.kind_of_ofParams? ha).trans after.kind_filled.symm, ?_, ?_⟩
    · rw [hparams, hvs, ← hvalues, hbnames, Action.names_filled_congr hkind hnames]
    · intro name v w hv hafter
      rw [hparams, hget, Option.map_eq_some_iff, ← hvalues] at hv
      obtain ⟨old, hold, rfl⟩ := hv
      have hname : before.filled.params.contains name = true := by
        rw [← NameMap.contains_congr hbnames, NameMap.contains, hold]
        rfl
      obtain ⟨u, hu⟩ := Option.isSome_iff_exists.1 hname
      exact Action.eqv_filled_of_rewritten hw hkind hnames hu (hbvalues name old u hold hu) hafter
  · obtain ⟨hwritable, rfl⟩ := Action.generate_eq_ok_iff.1 hcall
    exact Action.tells_written hwritable

/-- Where nothing is patched, the call as it is tells that one. -/
theorem of_patchTo_nil (h : Tells ⟨s.text, s.params⟩ before) (hp : s.patchTo before after = .ok ([], site)) :
    Tells ⟨s.text, s.params⟩ after := by
  have htells := h.patchTo hp
  obtain ⟨ps, found, values', ranges', hkind, -, hfound, hex, hedits, rfl⟩ | ⟨call, -, hedits, -⟩ :=
    CallSite.kept_or_anew hp
  · obtain rfl := List.map_eq_nil_iff.1 hedits.symm
    obtain ⟨m, values, b, htext, hm, he, -⟩ := h
    replace htext : m.text = s.text := htext
    rw [hkind] at hm
    have hmatch := hm.match?_append []
    rw [List.append_nil, htext] at hmatch
    have hpatched : s.patched [] = s.text := rfl
    rw [hpatched] at hfound htells
    obtain rfl := Option.some.inj (hmatch.symm.trans hfound)
    obtain ⟨rfl, rfl⟩ := Prod.mk.inj (Option.some.inj (he.symm.trans hex))
    exact htells
  · exact absurd hedits nofun

/-- Then literals are rewritten, or the call is written anew and says the word once. -/
theorem reworded_or_anew (h : Tells ⟨s.text, s.params⟩ before)
    (hp : s.patchTo before after = .ok (edits, site)) (ha : after.Silent) :
    (∀ e ∈ edits, Nonempty (s.Rewording e)) ∨
      ∃ text : Text, edits = [⟨s.range, text⟩] ∧ text.endsWord = true ∧ ∀ n, text.Opens n ↔ n = 0 := by
  obtain ⟨ps, found, values', ranges', hkind, hps, -, -, rfl, -⟩ | ⟨call, hcall, rfl, -⟩ :=
    CallSite.kept_or_anew hp
  · obtain ⟨m, values, b, htext, hm, he, -⟩ := h
    replace htext : m.text = s.text := htext
    have hmatch := hm.match?_append []
    rw [List.append_nil] at hmatch
    have hranged : CallText.Ranged ⟨s.text, s.params⟩ :=
      htext ▸ (CallShape.proper_of_match? hmatch he).ranged
    obtain ⟨-, hmem⟩ := CallSite.mem_patches? hranged hps
    refine .inl fun e he' => ?_
    obtain ⟨p, hp, rfl⟩ := List.mem_map.1 he'
    obtain ⟨name, w, r, hw, hr, rfl⟩ := (hmem p).1 hp
    obtain ⟨-, -, hget, -⟩ := CallSite.rewritten?_eq_some_iff.1 hw
    obtain ⟨l, hl, -, rfl⟩ := (CallMatch.get?_ranges he (CallShape.args_nodup hmatch)).1 hr
    obtain ⟨x, c, y, hx, hy, hne, hend, hc, hhead⟩ := hm.exists_edges hl
    have hplace : m.argumentRange l = ⟨x.size, x.size + l.literal.size⟩ := by
      rw [CallMatch.argumentRange, hx, Text.size_append, Nat.add_sub_cancel]
    obtain ⟨x', z, _, -, hrange, hz⟩ := hranged.inside _ (NameMap.mem_of_get? hr)
    have hwide : l.literal ≠ [] := by
      intro hnil
      rw [hplace, hnil] at hrange
      obtain ⟨hstart, hstop⟩ := ByteRange.mk.inj hrange
      have := Text.size_pos_of_ne_nil hz
      rw [Text.size_nil] at hstop
      omega
    exact ⟨{
      lead := x, literal := l.literal, behind := c, rest := y
      text_eq := by rw [← hy, ← hx, htext]
      range_eq := by rw [TextEdit.shift, hplace]
      lead_ne := hne
      literal_ne := hwide
      lead_endsWord := hend
      isBehind := hc
      not_behind := hhead
      silent := ha _ (NameMap.mem_of_get? hget) }⟩
  · have hend := Text.endsWord_of_closes (Action.proper_of_generate hcall).closes
    obtain ⟨-, rfl⟩ := Action.generate_eq_ok_iff.1 hcall
    exact .inr ⟨_, rfl, hend, fun n => Action.opens_written_iff ha⟩

end CallText.Tells

end RoutineSync
