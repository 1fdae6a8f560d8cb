import RoutineSync.Proofs.Call.Language
import RoutineSync.Proofs.Text.Edits
/-!
Calls with other literals. Where every block comment of a call ends at its first closing mark, the
same call with other literals is read the same way: what was left out stays left out, and nothing
else is read at its start.
-/
set_option autoImplicit false

namespace RoutineSync

namespace Gap

/-- Texts between the tokens of a call without block comments. -/
inductive Unblocked : Text → Prop where
  | nil : Unblocked []
  | blank {c : Char} {g : Text} : Text.isBlank c = true → Unblocked g → Unblocked (c :: g)
  | line {b g : Text} : '\n' ∉ b → Unblocked g → Unblocked ('/' :: '/' :: (b ++ '\n' :: g))

theorem Unblocked.neat {g : Text} (h : Unblocked g) : Neat g := by
  induction h with
  | nil => exact .nil
  | blank hc _ ih => exact .blank hc ih
  | line hb _ ih => exact .line hb ih

theorem Fills.unblocked {g : Text} (h : Fills g) (hg : ¬['/', '*'] <:+: g) : Unblocked g := by
  induction h with
  | nil => exact .nil
  | @blank c g hc _ ih => exact .blank hc (ih fun h => hg (h.trans (List.suffix_cons c g).isInfix))
  | @line b g hb _ ih =>
    exact .line hb (ih fun h => hg (h.trans ⟨'/' :: '/' :: (b ++ ['\n']), [], by simp⟩))
  | @block b g _ _ => exact (hg (List.prefix_append ['/', '*'] (b ++ '*' :: '/' :: g)).isInfix).elim

variable {k : Reader}

theorem read_line {b : Text} (hb : '\n' ∉ b) (x : Text) :
    read k .line (b ++ '\n' :: x) = (read k .between x).map (.after (b ++ ['\n'])) := by
  induction b with
  | nil =>
    rw [List.nil_append, read, if_pos rfl]
    rfl
  | cons c b ih =>
    simp only [List.mem_cons, not_or] at hb
    rw [List.cons_append, read, if_neg (Ne.symm hb.1), ih hb.2, Option.map_map]
    rfl

theorem read_block {b : Text} (hb : ¬['*', '/'] <:+: b) {x : Text} (h : (read k .between x).isSome) :
    read k .block (b ++ '*' :: '/' :: x) = (read k .between x).map (.after (b ++ ['*', '/'])) := by
  induction b with
  | nil =>
    obtain ⟨m, hm⟩ := Option.isSome_iff_exists.1 h
    rw [List.nil_append, read, hm]
    rfl
  | cons c b ih =>
    rw [List.cons_append, read, ih fun h => hb (h.trans (List.suffix_cons c b).isInfix),
      Option.map_map]
    · rfl
    · rintro r rfl hr
      cases b with
      | nil => exact absurd (List.cons.inj hr).1 (by decide)
      | cons d b =>
        obtain rfl := (List.cons.inj hr).1
        exact hb (List.prefix_append ['*', '/'] b).isInfix

theorem read_line_gap {b g : Text} (hb : '\n' ∉ b) (r : Text) :
    read k .between ('/' :: '/' :: (b ++ '\n' :: g) ++ r)
      = (read k .between (g ++ r)).map (.after ('/' :: '/' :: (b ++ ['\n']))) := by
  have hassoc : '/' :: '/' :: (b ++ '\n' :: g) ++ r = '/' :: '/' :: (b ++ '\n' :: (g ++ r)) := by simp
  rw [hassoc, read, read_line hb, Option.map_map]
  rfl

/-- Behind a gap without block comments nothing else is looked for. -/
theorem Unblocked.read_append {g : Text} (hg : Unblocked g) {c : Char} (hc : Text.Solid c) (r : Text) :
    read k .between (g ++ c :: r) = (k (c :: r)).map (.after g) := by
  induction hg with
  | nil =>
    rw [List.nil_append, read_solid hc]
    exact Option.map_id.symm ▸ rfl
  | @blank d g hd _ ih =>
    have := read_blanks (k := k) (g := [d]) (by simpa using hd) (g ++ c :: r)
    rw [List.singleton_append] at this
    rw [List.cons_append, this, ih, Option.map_map]
    rfl
  | @line b g hb _ ih =>
    rw [read_line_gap hb, ih, Option.map_map]
    congr 1
    funext m
    simp

/-- What is wanted is found first behind a gap whose block comments end at their first marks. -/
theorem Neat.read_append {g : Text} (hg : Neat g) {c : Char} (hc : Text.Solid c) {r : Text}
    (h : (k (c :: r)).isSome) : read k .between (g ++ c :: r) = (k (c :: r)).map (.after g) := by
  induction hg with
  | nil =>
    rw [List.nil_append, read_solid hc]
    exact Option.map_id.symm ▸ rfl
  | @blank d g hd _ ih =>
    have := read_blanks (k := k) (g := [d]) (by simpa using hd) (g ++ c :: r)
    rw [List.singleton_append] at this
    rw [List.cons_append, this, ih, Option.map_map]
    rfl
  | @line b g hb _ ih =>
    rw [read_line_gap hb, ih, Option.map_map]
    congr 1
    funext m
    simp
  | @block b g hb hg ih =>
    have hassoc : '/' :: '*' :: (b ++ '*' :: '/' :: g) ++ c :: r
        = '/' :: '*' :: (b ++ '*' :: '/' :: (g ++ c :: r)) := by simp
    rw [hassoc, read, read_block hb (isSome_read hg.fills hc h), ih, Option.map_map, Option.map_map]
    congr 1
    funext m
    simp

end Gap

namespace CallMatch

/-- The same call with other literals for the parameters that are given one. -/
inductive Reworded (f : Param → Option Text) : CallMatch → CallMatch → Prop where
  | bare (t : Text) : Reworded f ⟨t, []⟩ ⟨t, []⟩
  | after {m n : CallMatch} (lead : Text) : Reworded f m n → Reworded f (m.after lead) (n.after lead)
  | argument {m n : CallMatch} (p : Param) (a : Text) : Reworded f m n →
      Reworded f (m.afterArgument p a) (n.afterArgument p ((f p).getD a))

@[simp] theorem text_afterArgument (p : Param) (a : Text) (m : CallMatch) :
    (m.afterArgument p a).text = a ++ m.text := rfl

@[simp] theorem args_afterArgument (p : Param) (a : Text) (m : CallMatch) :
    (m.afterArgument p a).args = ⟨p, a, a ++ m.text⟩ :: m.args := rfl

theorem after_inj {lead : Text} {m n : CallMatch} (h : m.after lead = n.after lead) : m = n := by
  obtain ⟨text, args⟩ := m
  obtain ⟨text', args'⟩ := n
  obtain ⟨htext, hargs⟩ := CallMatch.mk.inj h
  rw [show args = args' from hargs, show text = text' from List.append_cancel_left htext]

variable {f : Param → Option Text} {m n : CallMatch}

theorem Reworded.eq_of_args_eq_nil (h : Reworded f m n) (hm : m.args = []) : n = m := by
  induction h with
  | bare t => rfl
  | after lead _ ih => rw [ih hm]
  | argument p a _ _ => exact absurd hm (List.cons_ne_nil _ _)

theorem Reworded.args_eq (h : Reworded f m n) :
    n.args.map (fun a => (a.param, a.literal))
      = m.args.map fun a => (a.param, (f a.param).getD a.literal) := by
  induction h with
  | bare t => rfl
  | after lead _ ih => exact ih
  | argument p a _ ih => exact congrArg _ ih

theorem Reworded.exists_argument_iff (h : Reworded f m n) (p : Param) (l : Text) :
    (∃ y ∈ n.args, y.param = p ∧ y.literal = l) ↔
      ∃ x ∈ m.args, x.param = p ∧ (f x.param).getD x.literal = l := by
  have hmem := @List.mem_map _ _ (p, l) (fun y : Argument => (y.param, y.literal)) n.args
  rw [h.args_eq, List.mem_map] at hmem
  simpa only [Prod.mk.injEq] using hmem.symm

theorem Reworded.params_eq (h : Reworded f m n) : n.args.map (·.param) = m.args.map (·.param) := by
  have := congrArg (List.map Prod.fst) h.args_eq
  simpa only [List.map_map, Function.comp_def] using this

/-- The edits that put the other literals into the text of a call that starts at a place. -/
def edits (f : Param → Option Text) (place : Nat) (m : CallMatch) : List TextEdit :=
  m.args.filterMap fun a => (f a.param).map fun l =>
    ⟨⟨place + m.text.size - a.onward.size, place + m.text.size - a.onward.size + a.literal.size⟩, l⟩

theorem mem_edits {e : TextEdit} :
    e ∈ m.edits f 0 ↔ ∃ a ∈ m.args, ∃ l, f a.param = some l ∧ e = ⟨m.argumentRange a, l⟩ := by
  simp only [edits, List.mem_filterMap, Option.map_eq_some_iff, Nat.zero_add, argumentRange,
    eq_comm (a := e)]

theorem edits_after (f : Param → Option Text) (place : Nat) (lead : Text) (m : CallMatch) :
    (m.after lead).edits f place = m.edits f (place + lead.size) := by
  simp only [edits, args_after, text_after, Text.size_append, Nat.add_assoc]

theorem edits_afterArgument (f : Param → Option Text) (place : Nat) (p : Param) (a : Text)
    (m : CallMatch) : (m.afterArgument p a).edits f place
      = ((f p).map fun l => (⟨⟨place, place + a.size⟩, l⟩ : TextEdit)).toList
        ++ m.edits f (place + a.size) := by
  have hsize : place + (a.size + m.text.size) = place + a.size + m.text.size := by omega
  have hfirst : place + a.size + m.text.size - (a.size + m.text.size) = place := by omega
  cases hl : f p <;>
    simp [edits, hl, hsize, hfirst]

/-- The edits make of the text of a call the text of the same call with other literals. -/
theorem Reworded.applyFrom_edits (h : Reworded f m n) (place : Nat) :
    TextEdit.Fit place (m.edits f place) m.text ∧
      TextEdit.applyFrom place (m.edits f place) m.text = n.text := by
  induction h generalizing place with
  | bare t => exact ⟨.nil, rfl⟩
  | @after m n lead _ ih =>
    rw [edits_after]
    obtain ⟨hfit, happly⟩ := ih (place + lead.size)
    obtain ⟨hfit', happly'⟩ := TextEdit.applyFrom_append_left hfit
    exact ⟨hfit', happly'.trans (by rw [happly]; rfl)⟩
  | @argument m n p a _ ih =>
    obtain ⟨hfit, happly⟩ := ih (place + a.size)
    rw [edits_afterArgument]
    cases f p with
    | none =>
      obtain ⟨hfit', happly'⟩ := TextEdit.applyFrom_append_left hfit
      exact ⟨hfit', happly'.trans (by rw [happly]; rfl)⟩
    | some l =>
      have hcut := TextEdit.applyFrom_cons place [] a m.text l (m.edits f (place + a.size))
      exact ⟨@TextEdit.Fit.cons place [] a m.text l _ hfit, hcut.trans (by
        rw [List.nil_append, Text.size_nil, Nat.add_zero, happly]
        rfl)⟩

end CallMatch

namespace Piece
open CallMatch (Reworded)

theorem before_inj {p : Piece} {a : Text} {m n : CallMatch} (h : p.before a m = p.before a n) :
    m = n := by
  cases p with
  | token w => exact CallMatch.after_inj h
  | literal p =>
    obtain ⟨htext, hargs⟩ := CallMatch.mk.inj h
    obtain ⟨-, hargs⟩ := List.cons.inj hargs
    obtain ⟨text, args⟩ := m
    obtain ⟨text', args'⟩ := n
    rw [show args = args' from hargs, show text = text' from List.append_cancel_left htext]

theorem accepts_of_spells {p : Piece} {a : Text} (h : p.Spells a) : p.Accepts a := by
  cases p with
  | token w => exact h
  | literal p => exact ⟨a ++ [], [], Literal.literal?_append h fun c hc => absurd hc (by simp)⟩

theorem spells_of_accepts {p : Piece} {a : Text} (h : p.Accepts a) : p.Spells a := by
  cases p with
  | token w => exact h
  | literal p =>
    obtain ⟨t, r, h⟩ := h
    exact Literal.isLiteral_of_literal? h

theorem read_token {k : Reader} (w r : Text) :
    (token w).read k (w ++ r) = (k r).map (.after w) := by
  rw [read, split?_token]
  rfl

theorem exists_reworded {p : Piece} {a : Text} {m n : CallMatch} {f : Param → Option Text}
    (ha : p.Spells a) (h : Reworded f m n)
    (hf : ∀ b ∈ (p.before a m).args, ∀ l, f b.param = some l → b.param.type.IsLiteral l) :
    ∃ b, p.Spells b ∧ Reworded f (p.before a m) (p.before b n) := by
  cases p with
  | token w => exact ⟨a, ha, h.after a⟩
  | literal p =>
    refine ⟨(f p).getD a, ?_, h.argument p a⟩
    cases hl : f p with
    | none => exact ha
    | some l => exact hf _ List.mem_cons_self l hl

theorem mem_args_before {p : Piece} (a : Text) {m : CallMatch} {b : Argument} (hb : b ∈ m.args) :
    b ∈ (p.before a m).args := by
  cases p with
  | token w => exact hb
  | literal p => exact List.mem_cons_of_mem _ hb

end Piece

namespace Grammar
open CallMatch (Reworded)

/-- The calls, from some place on, that a grammar describes, with gaps of a sort. -/
inductive DerivesWith (gap : Text → Prop) : Grammar → CallMatch → Prop where
  | done : DerivesWith gap .done .empty
  | piece {p : Piece} {g : Grammar} {x a : Text} {m : CallMatch} : gap x → p.Spells a →
      DerivesWith gap g m → DerivesWith gap (.piece p g) ((p.before a m).after x)
  | first {g h : Grammar} {m : CallMatch} : DerivesWith gap g m → DerivesWith gap (.either g h) m
  | second {g h : Grammar} {m : CallMatch} : DerivesWith gap h m → DerivesWith gap (.either g h) m

theorem DerivesWith.derives {g : Grammar} {m : CallMatch} (h : g.DerivesWith Gap.Neat m) :
    g.Derives m := by
  induction h with
  | done => exact .done
  | piece hx ha _ ih => exact .piece hx.fills (Piece.accepts_of_spells ha) ih
  | first _ ih => exact .first ih
  | second _ ih => exact .second ih

theorem Derives.with_gaps {gap : Text → Prop} {g : Grammar} {m : CallMatch} (h : g.Derives m)
    (hgap : ∀ x, x <:+: m.text → Gap.Fills x → gap x) : g.DerivesWith gap m := by
  induction h with
  | done => exact .done
  | @piece p g x a m hx ha _ ih =>
    rw [CallMatch.text_after, Piece.text_before] at hgap
    refine .piece (hgap x (List.prefix_append _ _).isInfix hx) (Piece.spells_of_accepts ha) (ih fun y hy => ?_)
    exact hgap y (hy.trans ⟨x ++ a, [], by simp⟩)
  | first _ ih => exact .first (ih hgap)
  | second _ ih => exact .second (ih hgap)

theorem DerivesWith.exists_row {gap : Text → Prop} {g : Grammar} {m : CallMatch}
    (h : g.DerivesWith gap m) : ∃ ps, g.Row ps ∧ Piece.Spaced gap ps m.text := by
  induction h with
  | done => exact ⟨[], .done, .nil⟩
  | @piece p g x a m hx ha _ ih =>
    obtain ⟨ps, hrow, hspaced⟩ := ih
    refine ⟨p :: ps, .piece hrow, ?_⟩
    rw [CallMatch.text_after, Piece.text_before]
    exact .cons hx ha hspaced
  | first _ ih =>
    obtain ⟨ps, hrow, hspaced⟩ := ih
    exact ⟨ps, .first hrow, hspaced⟩
  | second _ ih =>
    obtain ⟨ps, hrow, hspaced⟩ := ih
    exact ⟨ps, .second hrow, hspaced⟩

/-- Whether every row of pieces that the grammar allows is firm. -/
def Firm (g : Grammar) : Prop := ∀ ps, g.Row ps → Piece.Firm ps

/-- Where something may be left out, it holds an argument, and what stands there otherwise holds
none. -/
inductive Forked : Grammar → Prop where
  | done : Forked .done
  | piece {p : Piece} {g : Grammar} : Forked g → Forked (.piece p g)
  | either {g h : Grammar} : Forked g → Forked h → (∀ m, g.Derives m → m.args ≠ []) →
      (∀ m, h.Derives m → m.args = []) → Forked (.either g h)

section
variable {g : Grammar} {m : CallMatch}

theorem isSome_read (hg : g.Firm) (h : g.DerivesWith Gap.Neat m) (r : Text) :
    (g.read .stop (m.text ++ r)).isSome := by
  obtain ⟨ps, hrow, hspaced⟩ := h.exists_row
  exact hrow.isSome_read (hg ps hrow) (hspaced.imp fun _ _ hx => hx.fills) rfl

/-- More text behind a call does not keep it from being read. -/
theorem isSome_read_append (hg : g.Firm) {t : Text} (h : (g.read .stop t).isSome) (r : Text) :
    (g.read .stop (t ++ r)).isSome := by
  obtain ⟨ps, a, x, rfl, hrow, hspaced, -⟩ := exists_row_of_read h
  rw [List.append_assoc]
  exact hrow.isSome_read (hg ps hrow) hspaced rfl

theorem read_piece_append {p : Piece} {x a : Text} (hg : (piece p g).Firm) (hx : Gap.Neat x)
    (ha : p.Spells a) (hm : g.DerivesWith Gap.Neat m) (r : Text) :
    (piece p g).read .stop (((p.before a m).after x).text ++ r)
      = (g.read .stop (m.text ++ r)).map fun n => (p.before a n).after x := by
  obtain ⟨ps, hrow, hspaced⟩ := hm.exists_row
  have hfirm := hg _ (.piece hrow)
  have hsplit := Piece.split?_append hfirm ha (hspaced.imp fun _ _ hx => hx.fills) r
  have hsome := isSome_read (fun ps hps => Piece.firm_tail (hg _ (.piece hps))) hm r
  obtain ⟨c, y, rfl, hc⟩ := Piece.exists_solid hfirm ha
  have hread : p.read (g.read .stop) (c :: (y ++ (m.text ++ r)))
      = (g.read .stop (m.text ++ r)).map (p.before (c :: y)) := by
    rw [← List.cons_append, Piece.read, hsplit, Option.bind_some]
  have hgap := hx.read_append hc (k := p.read (g.read .stop)) (r := y ++ (m.text ++ r))
    (by rw [hread, Option.isSome_map]; exact hsome)
  rw [CallMatch.text_after, Piece.text_before, List.append_assoc, List.append_assoc, List.cons_append,
    read, hgap, hread, Option.map_map]
  rfl

end

/-- What is read of a call whose block comments end at their first marks is read again with other
literals. -/
theorem DerivesWith.exists_reworded {g : Grammar} {m : CallMatch} (h : g.DerivesWith Gap.Neat m)
    (hfirm : g.Firm) (hfork : g.Forked) {r : Text} (hm : g.read .stop (m.text ++ r) = some m)
    {f : Param → Option Text} (hf : ∀ a ∈ m.args, ∀ l, f a.param = some l → a.param.type.IsLiteral l) :
    ∃ n, g.read .stop n.text = some n ∧ g.DerivesWith Gap.Neat n ∧ Reworded f m n := by
  induction h with
  | done => exact ⟨.empty, rfl, .done, .bare []⟩
  | @piece p g x a m hx ha hder ih =>
    cases hfork with
    | piece hfork =>
      have htail : g.Firm := fun ps hps => Piece.firm_tail (hfirm _ (.piece hps))
      rw [read_piece_append hfirm hx ha hder r] at hm
      obtain ⟨m', hm', heq⟩ := Option.map_eq_some_iff.1 hm
      obtain rfl : m' = m := Piece.before_inj (CallMatch.after_inj heq)
      obtain ⟨n, hn, hder', hreworded⟩ :=
        ih htail hfork hm' fun b hb => hf b (Piece.mem_args_before a hb)
      obtain ⟨b, hb, hpiece⟩ := Piece.exists_reworded ha hreworded hf
      refine ⟨(p.before b n).after x, ?_, .piece hx hb hder', hpiece.after x⟩
      have hread := read_piece_append hfirm hx hb hder' []
      rw [List.append_nil, List.append_nil, hn, Option.map_some] at hread
      exact hread
  | @first g h m hder ih =>
    cases hfork with
    | either hfork _ _ _ =>
      have hleft : g.Firm := fun ps hps => hfirm _ (.first hps)
      obtain ⟨m', hm'⟩ := Option.isSome_iff_exists.1 (isSome_read hleft hder r)
      have hread : (g.read .stop (m.text ++ r)).or (h.read .stop (m.text ++ r)) = some m := hm
      rw [hm', Option.some_or] at hread
      obtain ⟨n, hn, hder', hreworded⟩ := ih hleft hfork (hm'.trans hread) hf
      refine ⟨n, ?_, .first hder', hreworded⟩
      show (g.read .stop n.text).or _ = _
      rw [hn]
      rfl
  | @second g h m hder ih =>
    cases hfork with
    | either _ hfork hargs hbare =>
      have hleft : g.Firm := fun ps hps => hfirm _ (.first hps)
      have hright : h.Firm := fun ps hps => hfirm _ (.second hps)
      have hnil := hbare m hder.derives
      have hread : (g.read .stop (m.text ++ r)).or (h.read .stop (m.text ++ r)) = some m := hm
      obtain hfirst | ⟨hnone, hsecond⟩ := Option.or_eq_some_iff.1 hread
      · exact absurd hnil (hargs m (derives_of_read hfirst))
      · obtain ⟨n, hn, hder', hreworded⟩ := ih hright hfork hsecond hf
        obtain rfl := hreworded.eq_of_args_eq_nil hnil
        refine ⟨n, ?_, .second hder', hreworded⟩
        have hleft : g.read .stop n.text = none := by
          rw [← Option.not_isSome_iff_eq_none]
          intro hsome
          have := isSome_read_append hleft hsome r
          rw [hnone] at this
          exact Bool.false_ne_true this
        show (g.read .stop n.text).or _ = _
        rw [hleft, hn]
        rfl

end Grammar

namespace CallShape
open CallMatch (Reworded)

theorem args_of_closing {m : CallMatch} (h : closing.Derives m) : m.args = [] := by
  cases h with
  | piece _ _ h =>
    cases h with
    | piece _ _ h =>
      cases h
      rfl

theorem args_of_argument {first : Bool} {p : Param} {g : Grammar} {m : CallMatch}
    (h : (if first then Grammar.piece (.literal p) g
      else .piece (.token [',']) (.piece (.literal p) g)).Derives m) : m.args ≠ [] := by
  have hargument : ∀ n, (Grammar.piece (.literal p) g).Derives n → n.args ≠ [] := by
    intro n hn
    cases hn with
    | piece _ _ _ => exact List.cons_ne_nil _ _
  cases first with
  | true => exact hargument m h
  | false =>
    cases h with
    | piece _ _ h =>
      have := hargument _ h
      exact this

theorem forked_arguments (first : Bool) (ps : List Param) : (arguments first ps).Forked := by
  have hclosing : closing.Forked := .piece (.piece .done)
  induction ps generalizing first with
  | nil => exact hclosing
  | cons p ps ih =>
    have hseparated : (if first then Grammar.piece (.literal p) (arguments false ps)
        else .piece (.token [',']) (.piece (.literal p) (arguments false ps))).Forked := by
      cases first with
      | true => exact .piece (ih false)
      | false => exact .piece (.piece (ih false))
    rw [arguments]
    split
    · exact .either hseparated hclosing (fun _ => args_of_argument) fun _ => args_of_closing
    · exact hseparated

theorem firm_arguments (first : Bool) (ps : List Param) : (arguments first ps).Firm := by
  intro row hrow
  obtain ⟨qs, rest, -, -, rfl⟩ := row_arguments_iff.1 hrow
  exact firm_separated first qs

/-- A call of a shape behind its function name. -/
def behindName (s : CallShape) : Grammar := .piece (.token ['(']) (arguments true s.params)

theorem firm_behindName (s : CallShape) : s.behindName.Firm := by
  intro row hrow
  obtain ⟨behind, rfl, hbehind⟩ := Grammar.row_piece_iff.1 hrow
  exact ⟨⟨_, _, rfl, by decide, by decide⟩, firm_arguments true s.params behind hbehind⟩

/-- A call before whose function name no block comment stands, and behind it none that is read past
its first closing mark. -/
inductive Tidy (s : CallShape) : CallMatch → Prop where
  | call {x y : Text} {m : CallMatch} : Gap.Unblocked x → Gap.Unblocked y →
      s.behindName.DerivesWith Gap.Neat m →
      Tidy s (m.after ("auton".toList ++ (x ++ ("::".toList ++ (y ++ s.kind.callName.toList)))))

section
variable {x y : Text}

/-- Without block comments before it, the function name is looked for in one place only. -/
theorem match?_unblocked (hx : Gap.Unblocked x) (hy : Gap.Unblocked y) (s : CallShape)
    (kind : ActionKind) (t : Text) :
    s.match? ("auton".toList ++ (x ++ ("::".toList ++ (y ++ (kind.callName.toList ++ t)))))
      = ((Piece.token s.kind.callName.toList).read (s.behindName.read .stop)
          (kind.callName.toList ++ t)).map
        (.after ("auton".toList ++ (x ++ ("::".toList ++ y)))) := by
  obtain ⟨c, w, hname, hc⟩ := (quiet_name kind).solid _ rfl
  have hbehind := hy.read_append hc (w ++ t)
    (k := (Piece.token s.kind.callName.toList).read (s.behindName.read .stop))
  rw [← List.cons_append, ← hname] at hbehind
  have hcolons : s.grammar.read .stop (x ++ ("::".toList ++ (y ++ (kind.callName.toList ++ t))))
      = ((Piece.token "::".toList).read
        (Gap.read ((Piece.token s.kind.callName.toList).read (s.behindName.read .stop)) .between)
          ("::".toList ++ (y ++ (kind.callName.toList ++ t)))).map (.after x) :=
    hx.read_append (c := ':') ⟨by decide, by decide⟩ (':' :: (y ++ (kind.callName.toList ++ t)))
  rw [match?, opening, Piece.read_token, hcolons, Piece.read_token, hbehind, Option.map_map,
    Option.map_map, Option.map_map]
  congr 1
  funext m
  simp

theorem match?_behindName (hx : Gap.Unblocked x) (hy : Gap.Unblocked y) (s : CallShape) (t : Text) :
    s.match? (("auton".toList ++ (x ++ ("::".toList ++ (y ++ s.kind.callName.toList)))) ++ t)
      = (s.behindName.read .stop t).map
        (.after ("auton".toList ++ (x ++ ("::".toList ++ (y ++ s.kind.callName.toList))))) := by
  have h := match?_unblocked hx hy s s.kind t
  rw [Piece.read_token, Option.map_map] at h
  simp only [List.append_assoc] at h ⊢
  rw [h]
  congr 1
  funext m
  simp

theorem match?_of_ne (hx : Gap.Unblocked x) (hy : Gap.Unblocked y) {s s' : CallShape}
    (h : s'.kind ≠ s.kind) (t : Text) :
    s'.match? (("auton".toList ++ (x ++ ("::".toList ++ (y ++ s.kind.callName.toList)))) ++ t) = none := by
  have h' := match?_unblocked hx hy s' s.kind t
  rw [Piece.read, split?_name_of_ne h, Option.bind_none, Option.map_none] at h'
  simp only [List.append_assoc] at h' ⊢
  exact h'

end

/-- A call that is found is found with other literals, alone and by no other shape, if it is tidy. -/
theorem Tidy.exists_reworded {s : CallShape} {m : CallMatch} (h : s.Tidy m) {r : Text}
    (hm : s.match? (m.text ++ r) = some m) {f : Param → Option Text}
    (hf : ∀ a ∈ m.args, ∀ l, f a.param = some l → a.param.type.IsLiteral l) :
    ∃ n, s.match? n.text = some n ∧ s.Tidy n ∧ Reworded f m n ∧
      ∀ s' : CallShape, s'.kind ≠ s.kind → s'.match? n.text = none := by
  cases h with
  | @call x y m hx hy hder =>
    rw [CallMatch.text_after, List.append_assoc, match?_behindName hx hy] at hm
    obtain ⟨m', hm', heq⟩ := Option.map_eq_some_iff.1 hm
    obtain rfl := CallMatch.after_inj heq
    obtain ⟨n, hn, hder', hreworded⟩ := hder.exists_reworded s.firm_behindName
      (.piece (forked_arguments true s.params)) hm' hf
    refine ⟨_, ?_, .call hx hy hder', hreworded.after _, fun s' hs => match?_of_ne hx hy hs n.text⟩
    rw [CallMatch.text_after, match?_behindName hx hy, hn, Option.map_some]

end CallShape

end RoutineSync
