import RoutineSync.Call.Writer
import RoutineSync.Proofs.Call.Derivation
import RoutineSync.Proofs.Text.Place
/-!
Where the arguments of a call stand: one after the other inside its text, which ends with a
semicolon. From this come the ranges that are kept with a call.
-/
set_option autoImplicit false

namespace RoutineSync

namespace NameMap
variable {α : Type}

theorem mem_of_get? {name : String} {a : α} {m : NameMap α} (h : m.get? name = some a) :
    (name, a) ∈ m := by
  induction m with
  | nil => simp [get?] at h
  | cons e r ih =>
    obtain ⟨n, b⟩ := e
    rw [get?] at h
    split at h
    · rename_i hn
      rw [← hn, ← Option.some.inj h]
      exact List.mem_cons_self
    · exact List.mem_cons_of_mem _ (ih h)

theorem mem_insert {name : String} {a : α} {m : NameMap α} {e : String × α}
    (h : e ∈ insert name a m) : e = (name, a) ∨ e ∈ m := by
  induction m with
  | nil => simpa [insert] using h
  | cons f r ih =>
    obtain ⟨n, b⟩ := f
    rw [insert] at h
    split at h
    · simpa using h
    · split at h
      · rcases List.mem_cons.1 h with h | h
        · exact .inl h
        · exact .inr (List.mem_cons_of_mem _ h)
      · rcases List.mem_cons.1 h with h | h
        · exact .inr (h ▸ List.mem_cons_self)
        · exact (ih h).imp_right (List.mem_cons_of_mem _)

theorem mem_of_mem_ofList {entries : List (String × α)} {e : String × α} (h : e ∈ ofList entries) :
    e ∈ entries := by
  have hfold : ∀ m : NameMap α, e ∈ entries.foldl (fun m e => insert e.1 e.2 m) m →
      e ∈ entries ∨ e ∈ m := by
    clear h
    induction entries with
    | nil => exact fun m hm => .inr hm
    | cons f fs ih =>
      intro m hm
      rcases ih _ hm with hm | hm
      · exact .inl (List.mem_cons_of_mem _ hm)
      · rcases mem_insert hm with rfl | hm
        · exact .inl List.mem_cons_self
        · exact .inr hm
  exact (hfold [] h).resolve_right List.not_mem_nil

theorem perm_insert {name : String} {a : α} {m : NameMap α} (h : name ∉ m.names) :
    (insert name a m).Perm ((name, a) :: m) := by
  induction m with
  | nil => exact List.Perm.refl _
  | cons e r ih =>
    obtain ⟨n, b⟩ := e
    simp only [names, List.map_cons, List.mem_cons, not_or] at h
    rw [insert]
    split
    · exact List.Perm.refl _
    · rw [if_neg (Ne.symm h.1)]
      exact ((ih h.2).cons _).trans (List.Perm.swap _ _ _)

theorem perm_foldl_insert {entries : List (String × α)} {m : NameMap α}
    (h : (entries.map (·.1)).Nodup) (hm : ∀ e ∈ entries, e.1 ∉ m.names) :
    (entries.foldl (fun m e => insert e.1 e.2 m) m).Perm (m ++ entries) := by
  induction entries generalizing m with
  | nil => simp
  | cons e es ih =>
    rw [List.map_cons, List.nodup_cons] at h
    have hp := perm_insert (a := e.2) (hm e List.mem_cons_self)
    refine (ih h.2 fun f hf => ?_).trans ?_
    · rw [names, (hp.map _).mem_iff, List.map_cons, List.mem_cons, not_or]
      refine ⟨fun he => h.1 (he ▸ List.mem_map_of_mem hf), hm f (List.mem_cons_of_mem _ hf)⟩
    · exact (hp.append_right es).trans List.perm_middle.symm

theorem perm_ofList {entries : List (String × α)} (h : (entries.map (·.1)).Nodup) :
    (ofList entries).Perm entries := by
  have hp := perm_foldl_insert h (m := []) fun _ _ => List.not_mem_nil
  rwa [List.nil_append] at hp

theorem get?_foldl_insert {entries : List (String × α)} (h : (entries.map (·.1)).Nodup)
    (name : String) (m : NameMap α) :
    get? name (entries.foldl (fun m e => insert e.1 e.2 m) m) = (get? name entries).or (get? name m) := by
  induction entries generalizing m with
  | nil => rfl
  | cons e es ih =>
    obtain ⟨n, a⟩ := e
    rw [List.map_cons, List.nodup_cons] at h
    rw [List.foldl_cons, ih h.2, get?]
    by_cases hn : n = name
    · have hnone : get? name es = none := by
        rw [Option.eq_none_iff_forall_ne_some]
        exact fun b hb => h.1 (hn ▸ List.mem_map_of_mem (f := (·.1)) (mem_of_get? hb))
      rw [if_pos hn, hnone, ← hn, get?_insert_self]
      rfl
    · rw [if_neg hn, get?_insert_of_ne (Ne.symm hn)]

theorem get?_ofList {entries : List (String × α)} (h : (entries.map (·.1)).Nodup) (name : String) :
    get? name (ofList entries) = get? name entries := by
  rw [ofList, get?_foldl_insert h]
  exact Option.or_none

end NameMap

namespace CallMatch

/-- Arguments for the first of some parameters, with text around them, and a semicolon at the
end. -/
inductive Laid : List Param → CallMatch → Prop where
  | closed {ps : List Param} (lead : Text) : Laid ps ⟨lead ++ [';'], []⟩
  | argument {p : Param} {ps : List Param} {lead literal : Text} {m : CallMatch} :
      (Piece.literal p).Accepts literal → Laid ps m →
      Laid (p :: ps) ((m.afterArgument p literal).after lead)

theorem Laid.after {ps : List Param} {m : CallMatch} (h : Laid ps m) (lead : Text) :
    Laid ps (m.after lead) := by
  cases h with
  | closed lead' =>
    have := @Laid.closed ps (lead ++ lead')
    rwa [List.append_assoc] at this
  | argument hl hm => exact CallMatch.after_after _ _ _ ▸ .argument hl hm

theorem Laid.getLast?_text {ps : List Param} {m : CallMatch} (h : Laid ps m) :
    m.text.getLast? = some ';' := by
  induction h with
  | closed lead => simp
  | argument hl hm ih => simp [afterArgument, CallMatch.after, ih]

theorem Laid.params_isPrefix {ps : List Param} {m : CallMatch} (h : Laid ps m) :
    m.args.map (·.param) <+: ps := by
  induction h with
  | closed lead => exact List.nil_prefix
  | argument hl hm ih => simpa [afterArgument] using ih

theorem Laid.exists_argument {ps : List Param} {m : CallMatch} (h : Laid ps m) :
    ∀ a ∈ m.args, (Piece.literal a.param).Accepts a.literal ∧
      ∃ lead rest, m.text = lead ++ a.onward ∧ a.onward = a.literal ++ rest ∧ rest ≠ [] := by
  induction h with
  | closed lead => simp
  | @argument p ps lead literal m hl hm ih =>
    intro a ha
    rcases List.mem_cons.1 ha with rfl | ha
    · refine ⟨hl, lead, m.text, rfl, rfl, fun h0 => ?_⟩
      simpa [h0] using hm.getLast?_text
    · obtain ⟨hn, lead', rest, ht, ho, hr⟩ := ih a ha
      refine ⟨hn, lead ++ literal ++ lead', rest, ?_, ho, hr⟩
      simp [afterArgument, CallMatch.after, ht]

theorem Laid.pairwise_onward {ps : List Param} {m : CallMatch} (h : Laid ps m) :
    m.args.Pairwise fun a b => ∃ x, a.onward = a.literal ++ (x ++ b.onward) := by
  induction h with
  | closed lead => exact .nil
  | @argument p ps lead literal m hl hm ih =>
    refine .cons (fun b hb => ?_) ih
    obtain ⟨-, lead', rest, ht, -, -⟩ := hm.exists_argument b hb
    exact ⟨lead', by rw [← ht]⟩

end CallMatch

namespace CallShape

theorem laid_of_closing {ps : List Param} {m : CallMatch} (h : closing.Derives m) : m.Laid ps := by
  cases h with
  | @piece _ _ g _ _ _ hp h =>
    cases h with
    | @piece _ _ g' _ _ _ hq h =>
      cases h
      simp only [Piece.Accepts] at hp hq
      subst hp hq
      have := @CallMatch.Laid.closed ps (g ++ [')'] ++ g')
      simpa [Piece.before, CallMatch.after, CallMatch.empty] using this

theorem laid_of_arguments {ps : List Param} {first : Bool} {m : CallMatch}
    (h : (arguments first ps).Derives m) : m.Laid ps := by
  induction ps generalizing first m with
  | nil => exact laid_of_closing h
  | cons p ps ih =>
    have argument : ∀ n, (Grammar.piece (.literal p) (arguments false ps)).Derives n →
        n.Laid (p :: ps) := by
      intro n hn
      cases hn with
      | piece _ ha hn =>
        exact .argument ha (ih hn)
    have separated : ∀ n, (if first then Grammar.piece (.literal p) (arguments false ps)
        else .piece (.token [',']) (.piece (.literal p) (arguments false ps))).Derives n →
        n.Laid (p :: ps) := by
      intro n hn
      split at hn
      · exact argument n hn
      · cases hn with
        | piece _ _ hn => exact (CallMatch.Laid.after (argument _ hn) _).after _
    rw [arguments] at h
    split at h
    · cases h with
      | first h => exact separated m h
      | second h => exact laid_of_closing h
    · exact separated m h

theorem derives_of_match? {s : CallShape} {t : Text} {m : CallMatch} (h : s.match? t = some m) :
    ∃ n, m = n.after "auton".toList ∧ s.grammar.Derives n := by
  obtain ⟨a, r, n, rfl, hs, hr, rfl⟩ := Piece.exists_of_read h
  have ha : a = "auton".toList := Piece.accepts_of_split? hs
  exact ⟨n, by rw [ha]; rfl, Grammar.derives_of_read hr⟩

theorem opens_of_match? {s : CallShape} {t : Text} {m : CallMatch} (h : s.match? t = some m) :
    "auton".toList <+: t := by
  obtain ⟨n, rfl, -⟩ := derives_of_match? h
  exact (List.prefix_append _ n.text).trans (prefix_of_match? h)

theorem size_pos_of_match? {s : CallShape} {t : Text} {m : CallMatch} (h : s.match? t = some m) :
    0 < m.text.size := by
  obtain ⟨n, rfl, -⟩ := derives_of_match? h
  exact Text.size_pos_of_ne_nil (List.append_ne_nil_of_left_ne_nil (by decide) n.text)

theorem laid_of_grammar {s : CallShape} {m : CallMatch} (h : s.grammar.Derives m) :
    m.Laid s.params := by
  unfold grammar at h
  generalize "::".toList = v at h
  cases h with
  | piece _ _ h =>
    cases h with
    | piece _ _ h =>
      cases h with
      | piece _ _ h =>
        simp only [Piece.before, CallMatch.after_after]
        exact (laid_of_arguments h).after _

theorem names_nodup (kind : ActionKind) : ((standard kind).params.map (·.name)).Nodup := by
  cases kind <;> decide

end CallShape

namespace CallMatch

theorem extract?_eq_some {m : CallMatch} {values : NameMap Value} {ranges : NameMap ByteRange}
    (h : m.extract? = some (values, ranges)) :
    ∃ read : List Value, m.args.map (fun a => a.param.type.read? a.literal) = read.map some ∧
      values = .ofList ((m.args.map (·.param.name)).zip read) ∧
      ranges = .ofList (m.args.map fun a => (a.param.name, m.argumentRange a)) := by
  unfold extract? at h
  generalize m.argumentRange = range at h ⊢
  simp only [NameMap.ofList]
  generalize ([] : NameMap Value) = vs, ([] : NameMap ByteRange) = rs at h ⊢
  generalize m.args = args at h ⊢
  induction args generalizing vs rs with
  | nil =>
    simp only [List.foldlM_nil, Option.pure_def, Option.some.injEq, Prod.mk.injEq] at h
    exact ⟨[], rfl, h.1.symm, h.2.symm⟩
  | cons a args ih =>
    simp only [List.foldlM_cons, Option.bind_eq_bind, Option.bind_eq_some_iff, Option.pure_def,
      Option.some.injEq] at h
    obtain ⟨_, ⟨v, hv, rfl⟩, h⟩ := h
    obtain ⟨read, hr, hvs, hrs⟩ := ih _ _ h
    exact ⟨v :: read, by simp [hv, hr], by simpa using hvs, by simpa using hrs⟩

end CallMatch

/-- A call with the ranges of its arguments, which are inside it and have no byte in common. -/
structure CallText.Proper (c : CallText) : Prop where
  opens : "auton".toList <+: c.text
  closes : c.text.getLast? = some ';'
  inside : ∀ e ∈ c.params, ∃ x y z, c.text = x ++ y ++ z ∧ e.2 = ⟨x.size, x.size + y.size⟩ ∧
    x ≠ [] ∧ y ≠ [] ∧ z ≠ []
  apart : c.params.Pairwise fun e f => e.2.stop ≤ f.2.start ∨ f.2.stop ≤ e.2.start

/-- The parameters of a call have ranges in its text, which have no byte in common. -/
structure CallText.Ranged (c : CallText) : Prop where
  inside : ∀ e ∈ c.params, ∃ x y z, c.text = x ++ y ++ z ∧ e.2 = ⟨x.size, x.size + y.size⟩ ∧ y ≠ []
  apart : c.params.Pairwise fun e f => e.2.stop ≤ f.2.start ∨ f.2.stop ≤ e.2.start

theorem CallText.Proper.ranged {c : CallText} (h : c.Proper) : c.Ranged where
  inside e he := by
    obtain ⟨x, y, z, ht, hr, -, hy, -⟩ := h.inside e he
    exact ⟨x, y, z, ht, hr, hy⟩
  apart := h.apart

theorem CallText.Ranged.inside_text {c : CallText} (h : c.Ranged) :
    ∀ e ∈ c.params, e.2.start ≤ e.2.stop ∧ e.2.stop ≤ c.text.size := by
  intro e he
  obtain ⟨x, y, z, ht, hr, -⟩ := h.inside e he
  rw [ht, hr]
  simp only [Text.size_append]
  omega

/-- Of two elements of a list one is before the other. -/
theorem eq_or_of_pairwise {α : Type} {R : α → α → Prop} {l : List α} (hl : l.Pairwise R) {a b : α}
    (ha : a ∈ l) (hb : b ∈ l) : a = b ∨ R a b ∨ R b a :=
  List.Pairwise.forall_of_forall_of_flip (R := fun a b => a = b ∨ R a b ∨ R b a)
    (fun _ _ => .inl rfl) (hl.imp fun h => .inr (.inl h)) (hl.imp fun h => .inr (.inr h)) ha hb

theorem CallText.Ranged.apart_of_ne {c : CallText} (h : c.Ranged) {e f : String × ByteRange}
    (he : e ∈ c.params) (hf : f ∈ c.params) (hne : e.2 ≠ f.2) :
    e.2.stop ≤ f.2.start ∨ f.2.stop ≤ e.2.start := by
  rcases eq_or_of_pairwise h.apart he hf with rfl | hef | hfe
  · exact absurd rfl hne
  · exact hef
  · exact hfe.symm

theorem CallShape.proper_of_match? {kind : ActionKind} {t : Text} {m : CallMatch}
    {values : NameMap Value} {ranges : NameMap ByteRange}
    (h : (standard kind).match? t = some m) (he : m.extract? = some (values, ranges)) :
    CallText.Proper ⟨m.text, ranges⟩ := by
  obtain ⟨n, rfl, hn⟩ := derives_of_match? h
  have hl := laid_of_grammar hn
  obtain ⟨-, -, -, hr⟩ := CallMatch.extract?_eq_some he
  have hnames : ((n.args.map fun a => (a.param.name, (n.after "auton".toList).argumentRange a)).map
      (·.1)).Nodup := by
    have := (hl.params_isPrefix.map (·.name)).sublist.nodup (names_nodup kind)
    simpa [Function.comp_def] using this
  have hp := NameMap.perm_ofList hnames
  rw [← CallMatch.args_after, ← hr] at hp
  constructor
  · exact ⟨n.text, rfl⟩
  · rw [CallMatch.text_after, List.getLast?_append, hl.getLast?_text]
    rfl
  · intro e hm
    rw [hp.mem_iff, List.mem_map] at hm
    obtain ⟨a, ha, rfl⟩ := hm
    obtain ⟨⟨_, _, hliteral⟩, lead, rest, ht, ho, hrest⟩ := hl.exists_argument a ha
    refine ⟨"auton".toList ++ lead, a.literal, rest, by simp [ht, ho], ?_, by simp,
      ValueType.literal?_ne_nil hliteral, hrest⟩
    simp only [CallMatch.argumentRange, CallMatch.text_after, ht, Text.size_append,
      ByteRange.mk.injEq]
    omega
  · have hsymm : ∀ {e f : String × ByteRange},
        e.2.stop ≤ f.2.start ∨ f.2.stop ≤ e.2.start →
          f.2.stop ≤ e.2.start ∨ e.2.stop ≤ f.2.start := Or.symm
    rw [hp.pairwise_iff hsymm, List.pairwise_map]
    refine hl.pairwise_onward.imp_of_mem fun {a b} ha hb ⟨x, hx⟩ => .inl ?_
    obtain ⟨-, lead, rest, ht, ho, -⟩ := hl.exists_argument b hb
    obtain ⟨-, lead', rest', ht', -, -⟩ := hl.exists_argument a ha
    have h1 := congrArg Text.size ht
    have h2 := congrArg Text.size ht'
    have h3 := congrArg Text.size hx
    simp only [Text.size_append] at h1 h2 h3
    simp only [CallMatch.argumentRange, CallMatch.text_after, Text.size_append]
    omega

end RoutineSync
