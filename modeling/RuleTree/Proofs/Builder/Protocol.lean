import RuleTree.Builder.Nodes
import RuleTree.Literal.Decoder
import RuleTree.Proofs.Builder.Steps
import RuleTree.Proofs.Queue.Branch

/-!
# The protocol of builders

What a builder leaves behind, whatever stands at its cursor. It goes past its node, or it does not
match and has done nothing, or it fails for good: before its node when it is for a choice, and
behind it otherwise.

* `Unmatched`: where the builder of a kind does not match.
* `Obeys`: the outcomes that the protocol allows a builder of a kind.
* `obeys_tagged` and `obeys_choice`: the two ways in which the builders of kinds keep to it.
* `node_protocol`: all of them do.
-/

namespace RuleTree

/-! ### Literals -/

/-- The decoder of the texts of a kind. -/
def Kind.decoder? (settings : Settings) : Kind → Option Decoder
  | .numeral r => some (.integer r.base)
  | .float => some (if settings.radixFloats then .radixFloat else .float)
  | .char => some .char
  | .string => some .string
  | _ => none

/-- The decoder gives the text a value, or finds it malformed. -/
def Decoder.Settles (d : Decoder) (text : String) : Prop :=
  ∀ fault, d.run text = .error fault → ∃ literal, fault = .malformed literal

instance (d : Decoder) (text : String) : Decidable (d.Settles text) :=
  match h : d.run text with
  | .ok _ => isTrue fun fault hfault => by rw [h] at hfault; cases hfault
  | .error (.malformed literal) => isTrue fun fault hfault => by
    rw [h] at hfault
    cases hfault
    exact ⟨literal, rfl⟩
  | .error (.unsupportedBase _) => isFalse fun hd => nomatch hd _ h
  | .error (.tooManyDigits _) => isFalse fun hd => nomatch hd _ h
  | .error (.unreadable _) => isFalse fun hd => nomatch hd _ h

namespace Cursor

/-- Every literal in the queue is settled by the decoder of its kind. -/
def Legible (c : Cursor) : Prop :=
  ∀ e ∈ c.queue, ∀ k d, Kind.decoder? c.settings k = some d → e.site.rule = k.rule →
    d.Settles e.site.text

theorem legible_iff (c : Cursor) : c.Legible ↔ ∀ e ∈ c.queue.toList, ∀ k ∈ Kind.all,
    ∀ d ∈ k.decoder? c.settings, e.site.rule = k.rule → d.Settles e.site.text := by
  constructor
  · intro h e he k _ d hd hr
    exact h e (Array.mem_toList_iff.mp he) k d hd hr
  · intro h e he k d hd hr
    exact h e (Array.mem_toList_iff.mpr he) k (Kind.mem_all k) d hd hr

instance (c : Cursor) : Decidable c.Legible := decidable_of_iff _ c.legible_iff.symm

/-- The cursor is over whole branches of a queue with legible literals. -/
def Sound (c : Cursor) : Prop := (∃ bs, c.Over bs) ∧ c.Legible

variable {c : Cursor} {i : Item}

theorem Sound.ahead_ne_outside (h : c.Sound) : c.ahead ≠ .outside := by
  obtain ⟨⟨bs, hbs⟩, -⟩ := h
  exact hbs.ahead_ne_outside

theorem Sound.behind (h : c.Sound) (hi : c.peek? = some i) : (c.behind i).Sound := by
  obtain ⟨⟨bs, hbs⟩, hlegible⟩ := h
  obtain ⟨-, rest, -, -, -, hrest⟩ := hbs.of_peek? hi
  exact ⟨⟨rest, hrest⟩, hlegible⟩

theorem Sound.inside (h : c.Sound) (hi : c.peek? = some i) : (c.inside i).Sound := by
  obtain ⟨⟨bs, hbs⟩, hlegible⟩ := h
  obtain ⟨b, -, -, -, hinside, -⟩ := hbs.of_peek? hi
  exact ⟨⟨b.children, hinside⟩, hlegible⟩

theorem Reaches.sound {root : Cursor} (h : root.Reaches c) (hroot : root.Sound) : c.Sound := by
  induction h with
  | start => exact hroot
  | behind _ hi ih => exact ih.behind hi
  | inside _ hi ih => exact ih.inside hi

theorem mem_queue_of_peek? (hi : c.peek? = some i) : i.entry ∈ c.queue := by
  rw [peek?_eq_some_iff] at hi
  unfold ahead at hi
  split at hi
  · split at hi
    · rename_i hat
      cases hi
      unfold Item.at? at hat
      split at hat
      · obtain ⟨e, he, rfl⟩ := Option.map_eq_some_iff.mp hat
        exact Array.mem_of_getElem? he
      · cases hat
    · cases hi
  · cases hi

end Cursor

/-! ### What the protocol says -/

/-- Whether a kind is a choice between others. -/
def Kind.isChoice (k : Kind) : Bool := k.variants?.isSome

/-- Whether there are kinds below a kind, so that no node is of the kind itself. -/
def Kind.isGeneral (k : Kind) : Bool := Kind.all.any fun l => l.ancestors.contains k

namespace Builder

/-- Nothing at the cursor is what the kind is built from: no sibling is left, the next one has
another rule, or it is a choice and none of the variants is built from its children. Parameters may
always be built. -/
inductive Unmatched : Kind → Cursor → Prop
  | exhausted {k : Kind} {c : Cursor} : k ≠ .params → c.peek? = none → Unmatched k c
  | differs {k : Kind} {c : Cursor} {i : Item} : k ≠ .params → c.peek? = some i → i.rule ≠ k.rule →
      Unmatched k c
  | variants {k : Kind} {c : Cursor} {i : Item} {kinds : List Kind} : k.variants? = some kinds →
      c.peek? = some i → i.rule = k.rule → (∀ v ∈ kinds, Unmatched v (c.inside i)) → Unmatched k c

/-- The outcomes that the protocol allows a builder of a kind of nodes at a cursor. -/
inductive Obeys {α : Type} (k : Kind) (c : Cursor) : Outcome α → Prop
  | done {i : Item} {a : α} {log : List Site} : c.peek? = some i → ¬Unmatched k c →
      Obeys k c ⟨.ok a, c.behind i, log⟩
  | noMatch {m : Mismatch} : Unmatched k c → Obeys k c ⟨.error (.noMatch m), c, []⟩
  | fatal {i : Item} {e : FatalError} {log : List Site} : c.peek? = some i → ¬Unmatched k c →
      Obeys k c ⟨.error (.fatal e), if k.isChoice then c else c.behind i, log⟩
  | tooDeep {c' : Cursor} {log : List Site} : ¬Unmatched k c → Obeys k c ⟨.error .tooDeep, c', log⟩

/-- The outcomes of what runs inside a node: a value before whole branches, or an error for good. -/
inductive Steady {α : Type} : Outcome α → Prop
  | done {a : α} {c : Cursor} {log : List Site} : c.Sound → Steady ⟨.ok a, c, log⟩
  | fatal {e : FatalError} {c : Cursor} {log : List Site} : Steady ⟨.error (.fatal e), c, log⟩
  | tooDeep {c : Cursor} {log : List Site} : Steady ⟨.error .tooDeep, c, log⟩

/-- The builders of nested expressions keep to the protocol. -/
def NestedObeys (n : Nested) : Prop :=
  (∀ b, n.group? = some b → ∀ c, c.Sound → Obeys .expression c (b c)) ∧
    ∀ b, n.item? = some b → ∀ c, c.Sound → Obeys .expression c (b c)

variable {α β : Type} {b : Builder α} {c : Cursor} {i : Item} {k : Kind}

theorem unmatched_of_rule?_ne (hparams : k ≠ .params) (h : c.rule? ≠ some k.rule) :
    Unmatched k c := by
  cases hi : c.peek? with
  | none => exact .exhausted hparams hi
  | some i => exact .differs hparams hi fun hr => h (by rw [rule?_of_peek? hi, hr])

theorem unmatched_iff_of_match (hi : c.peek? = some i) (hr : i.rule = k.rule) :
    Unmatched k c ↔
      ∃ kinds, k.variants? = some kinds ∧ ∀ v ∈ kinds, Unmatched v (c.inside i) := by
  constructor
  · intro h
    cases h with
    | exhausted _ hj =>
      simp [hi] at hj
    | differs _ hj hne =>
      rw [hi] at hj
      cases hj
      exact absurd hr hne
    | variants hkinds hj _ hall =>
      rw [hi] at hj
      cases hj
      exact ⟨_, hkinds, hall⟩
  · rintro ⟨kinds, hkinds, hall⟩
    exact .variants hkinds hi hr hall

theorem not_unmatched_params : ¬Unmatched .params c := by
  intro h
  cases h with
  | exhausted hne => exact hne rfl
  | differs hne => exact hne rfl
  | variants hkinds => cases hkinds

/-! ### Inside a node -/

theorem Steady.after {o : Outcome α} (h : Steady o) (log : List Site) : Steady (o.after log) := by
  cases h with
  | done hc => exact .done hc
  | fatal => exact .fatal
  | tooDeep => exact .tooDeep

theorem steady_pure (hc : c.Sound) (a : α) : Steady ((pure a : Builder α) c) := .done hc

theorem steady_bind (hb : Steady (b c)) {f : α → Builder β}
    (hf : ∀ a c', c'.Sound → Steady (f a c')) : Steady ((b >>= f) c) := by
  generalize ho : b c = o at hb
  cases hb with
  | done hc =>
    rw [bind_of_ok ho]
    exact Steady.after (hf _ _ hc) _
  | fatal =>
    rw [bind_of_error ho]
    exact .fatal
  | tooDeep =>
    rw [bind_of_error ho]
    exact .tooDeep

theorem steady_map (hb : Steady (b c)) (f : α → β) : Steady ((f <$> b) c) := by
  generalize ho : b c = o at hb
  cases hb with
  | done hc =>
    rw [map_of_eq ho]
    exact .done hc
  | fatal =>
    rw [map_of_eq ho]
    exact .fatal
  | tooDeep =>
    rw [map_of_eq ho]
    exact .tooDeep

theorem Obeys.map (hb : Obeys k c (b c)) (f : α → β) : Obeys k c ((f <$> b) c) := by
  generalize ho : b c = o at hb
  cases hb with
  | done hi hk =>
    rw [map_of_eq ho]
    exact .done hi hk
  | noMatch hk =>
    rw [map_of_eq ho]
    exact .noMatch hk
  | fatal hi hk =>
    rw [map_of_eq ho]
    exact .fatal hi hk
  | tooDeep hk =>
    rw [map_of_eq ho]
    exact .tooDeep hk

theorem Obeys.recover (hc : c.Sound) (hb : Obeys k c (b c)) {next : Option String → Builder α}
    (hnext : ∀ found, Steady (next found c)) : Steady (recover b next c) := by
  generalize ho : b c = o at hb
  cases hb with
  | done hi =>
    rw [recover_of_ne ho nofun]
    exact .done (hc.behind hi)
  | noMatch =>
    rw [recover_of_noMatch ho]
    exact (hnext _).after []
  | fatal =>
    rw [recover_of_ne ho nofun]
    exact .fatal
  | tooDeep =>
    rw [recover_of_ne ho nofun]
    exact .tooDeep

theorem steady_required (hc : c.Sound) (hb : Obeys k c (b c)) (parent : Site) (what : String) :
    Steady (required parent what b c) :=
  hb.recover hc fun _ => .fatal

theorem steady_optional (hc : c.Sound) (hb : Obeys k c (b c)) : Steady (optional b c) :=
  (hb.map some).recover hc fun _ => steady_pure hc none

theorem steady_atMost (hb : ∀ c, c.Sound → Obeys k c (b c)) (n : Nat) (hc : c.Sound) :
    Steady (atMost b n c) := by
  induction n generalizing c with
  | zero => exact steady_pure hc []
  | succ n ih =>
    apply steady_bind (steady_optional hc (hb c hc))
    intro a? c' hc'
    cases a? with
    | none => exact steady_pure hc' []
    | some a => exact steady_map (ih hc') _

theorem steady_many (hb : ∀ c, c.Sound → Obeys k c (b c)) (hc : c.Sound) : Steady (many b c) :=
  steady_atMost hb _ hc

theorem steady_decode (hc : c.Sound) {site : Site} {decoder : String → Except Fault α}
    (h : ∀ fault, decoder site.text = .error fault → ∃ literal, fault = .malformed literal) :
    Steady (decode site decoder c) := by
  cases hdecode : decoder site.text with
  | ok a =>
    simp only [decode, hdecode]
    exact .done hc
  | error fault =>
    obtain ⟨literal, rfl⟩ := h fault hdecode
    simp only [decode, hdecode]
    exact .fatal

theorem closing_of_steady {o : Outcome α} (h : Steady o) (site : Site) :
    (∃ a, closing site o = .ok a) ∨ (∃ e, closing site o = .error (.fatal e)) ∨
      closing site o = .error .tooDeep := by
  cases h with
  | fatal => exact .inr (.inl ⟨_, rfl⟩)
  | tooDeep => exact .inr (.inr rfl)
  | @done a c log hc =>
    simp only [closing, Except.bind, finish]
    cases hahead : c.ahead with
    | item extra => exact .inr (.inl ⟨_, rfl⟩)
    | ending => exact .inl ⟨a, rfl⟩
    | outside => exact absurd hahead hc.ahead_ne_outside

/-! ### Nodes -/

theorem obeys_tagged (hk : k.variants? = none) (hparams : k ≠ .params) (hc : c.Sound)
    {f : Site → Builder α}
    (hf : ∀ i, c.peek? = some i → i.rule = k.rule → Steady (f i.entry.site (c.inside i))) :
    Obeys k c (tagged k.rule f c) := by
  by_cases hrule : c.rule? = some k.rule
  · obtain ⟨i, hi, hr⟩ := exists_peek? hrule
    have hmatched : ¬Unmatched k c := by
      rw [unmatched_iff_of_match hi hr, hk]
      nofun
    have hlate : (if k.isChoice then c else c.behind i) = c.behind i := by
      rw [Kind.isChoice, hk]
      rfl
    rw [tagged_of_match hi hr]
    rcases closing_of_steady (hf i hi hr) i.entry.site with ⟨a, ha⟩ | ⟨e, he⟩ | hdeep
    · rw [ha]
      exact .done hi hmatched
    · rw [he, ← hlate]
      exact .fatal hi hmatched
    · rw [hdeep]
      exact .tooDeep hmatched
  · rw [tagged_of_mismatch hc.ahead_ne_outside hrule]
    exact .noMatch (unmatched_of_rule?_ne hparams hrule)

theorem firstMatchOf_obeys (hc : c.Sound) (rules : List String) (variants : List (Kind × Builder α))
    (hv : ∀ v ∈ variants, Obeys v.1 c (v.2 c)) :
    ((∀ v ∈ variants, Unmatched v.1 c) ∧
        ∃ m, firstMatchOf rules (ofKinds variants) c
          = ⟨.error (.noMatch m), c, []⟩) ∨
      ((∃ v ∈ variants, ¬Unmatched v.1 c) ∧
        Steady (firstMatchOf rules (ofKinds variants) c)) := by
  induction variants with
  | nil => exact .inl ⟨nofun, _, mismatch_eq hc.ahead_ne_outside rules⟩
  | cons v vs ih =>
    obtain ⟨hhead, htail⟩ := List.forall_mem_cons.mp hv
    simp only [ofKinds_cons, firstMatchOf]
    generalize ho : v.2 c = o at hhead
    cases hhead with
    | done hi hk =>
      rw [recover_of_ne ho nofun]
      exact .inr ⟨⟨v, List.mem_cons_self, hk⟩, .done (hc.behind hi)⟩
    | fatal hi hk =>
      rw [recover_of_ne ho nofun]
      exact .inr ⟨⟨v, List.mem_cons_self, hk⟩, .fatal⟩
    | tooDeep hk =>
      rw [recover_of_ne ho nofun]
      exact .inr ⟨⟨v, List.mem_cons_self, hk⟩, .tooDeep⟩
    | noMatch hk =>
      rw [recover_of_noMatch ho, Outcome.after_nil]
      rcases ih htail with ⟨hall, hm⟩ | ⟨⟨w, hw, hne⟩, hsteady⟩
      · exact .inl ⟨List.forall_mem_cons.mpr ⟨hk, hall⟩, hm⟩
      · exact .inr ⟨⟨w, List.mem_cons_of_mem _ hw, hne⟩, hsteady⟩

theorem obeys_choice (variants : List (Kind × Builder α))
    (hk : k.variants? = some (variants.map (·.1))) (hc : c.Sound)
    (hv : ∀ v ∈ variants, ∀ c, c.Sound → Obeys v.1 c (v.2 c)) :
    Obeys k c (choice k.rule (ofKinds variants) c) := by
  have hparams : k ≠ .params := by
    rintro rfl
    cases hk
  by_cases hrule : c.rule? = some k.rule
  · obtain ⟨i, hi, hr⟩ := exists_peek? hrule
    have hstays : (if k.isChoice then c else c.behind i) = c := by
      rw [Kind.isChoice, hk]
      rfl
    rcases firstMatchOf_obeys (hc.inside hi) _ variants (fun v hmem => hv v hmem _ (hc.inside hi))
      with ⟨hall, m, hm⟩ | ⟨⟨v, hmem, hne⟩, hsteady⟩
    · have hunmatched : Unmatched k c := by
        refine .variants hk hi hr ?_
        intro v hmem
        obtain ⟨w, hw, rfl⟩ := List.mem_map.mp hmem
        exact hall w hw
      rw [choice_of_error hi hr (by rw [firstMatch, hm]; rfl), firstMatch, hm]
      exact .noMatch hunmatched
    · have hmatched : ¬Unmatched k c := by
        rw [unmatched_iff_of_match hi hr, hk]
        rintro ⟨_, ⟨⟩, hall⟩
        exact hne (hall v.1 (List.mem_map_of_mem hmem))
      rcases closing_of_steady hsteady i.entry.site with ⟨a, ha⟩ | ⟨e, he⟩ | hdeep
      · rw [choice_of_ok hi hr ha]
        exact .done hi hmatched
      · rw [choice_of_error hi hr he]
        exact Eq.subst (motive := fun c' => Obeys k c ⟨_, c', _⟩) hstays (.fatal hi hmatched)
      · rw [choice_of_error hi hr hdeep]
        exact .tooDeep hmatched
  · rw [choice_of_mismatch hc.ahead_ne_outside hrule]
    exact .noMatch (unmatched_of_rule?_ne hparams hrule)

theorem obeys_allowed (hk : k.variants? = none) (hparams : k ≠ .params) (hc : c.Sound)
    (b? : Option (Builder α)) (hb : ∀ b, b? = some b → Obeys k c (b c)) :
    Obeys k c (allowed k.rule b? c) := by
  cases b? with
  | some b => exact hb b rfl
  | none =>
    by_cases hrule : c.rule? = some k.rule
    · obtain ⟨i, hi, hr⟩ := exists_peek? hrule
      rw [allowed_none_of_match hi hr]
      refine .tooDeep ?_
      rw [unmatched_iff_of_match hi hr, hk]
      nofun
    · rw [allowed_none_of_mismatch hc.ahead_ne_outside hrule]
      exact .noMatch (unmatched_of_rule?_ne hparams hrule)

/-! ### The kinds -/

theorem marker_obeys (o : Operator) (hc : c.Sound) (a : α) :
    Obeys (.marker o) c (marker (.marker o) a c) :=
  obeys_tagged (k := .marker o) rfl nofun hc fun _ hi _ => steady_pure (hc.inside hi) a

theorem leaf_obeys (hk : k.variants? = none) (hparams : k ≠ .params) (hc : c.Sound)
    {decoder : Settings → String → Except Fault α} (hdecoder : ∀ s text fault,
      decoder s text = .error fault → ∃ d, k.decoder? s = some d ∧ d.run text = .error fault) :
    Obeys k c (leaf k decoder c) := by
  apply obeys_tagged hk hparams hc
  intro i hi hr
  rw [bind_of_ok (show settings (c.inside i) = ⟨.ok c.settings, c.inside i, []⟩ from rfl)]
  refine Steady.after (steady_decode (hc.inside hi) fun fault hfault => ?_) []
  obtain ⟨d, hd, hrun⟩ := hdecoder _ _ _ hfault
  exact hc.2 i.entry (Cursor.mem_queue_of_peek? hi) k d hd hr fault hrun

theorem numeral_obeys (r : Radix) (hc : c.Sound) :
    Obeys (.numeral r) c (numeral (.numeral r) r c) := by
  refine leaf_obeys (k := .numeral r) rfl nofun hc fun s text fault hfault => ⟨_, rfl, ?_⟩
  rw [Decoder.run, decodeInteger_base, hfault]
  rfl

theorem float_obeys (hc : c.Sound) : Obeys .float c (float c) := by
  refine leaf_obeys (k := .float) rfl nofun hc fun s text fault hfault => ⟨_, rfl, ?_⟩
  by_cases hs : s.radixFloats
  · rw [if_pos hs] at hfault ⊢
    rw [Decoder.run, hfault]
    rfl
  · rw [if_neg hs] at hfault ⊢
    rw [Decoder.run, hfault]
    rfl

theorem char_obeys (hc : c.Sound) : Obeys .char c (char c) := by
  refine leaf_obeys (k := .char) rfl nofun hc fun s text fault hfault => ⟨_, rfl, ?_⟩
  rw [Decoder.run, hfault]
  rfl

theorem string_obeys (hc : c.Sound) : Obeys .string c (string c) :=
  leaf_obeys (k := .string) rfl nofun hc fun _ _ _ hfault => by cases hfault

theorem operator_obeys (hc : c.Sound) : Obeys .operator c (operator c) := by
  apply obeys_choice (k := .operator) operatorVariants rfl hc
  intro v hv c hc
  obtain ⟨o, -, rfl⟩ := List.mem_map.mp hv
  exact marker_obeys o hc o

theorem integer_obeys (hc : c.Sound) : Obeys .integer c (integer c) := by
  apply obeys_choice (k := .integer) integerVariants rfl hc
  intro v hv c hc
  obtain ⟨r, -, rfl⟩ := List.mem_map.mp hv
  exact (numeral_obeys r hc).map _

theorem primitive_obeys (hc : c.Sound) : Obeys .primitive c (primitive c) := by
  refine obeys_choice (k := .primitive) primitiveVariants rfl hc ?_
  simp only [primitiveVariants, List.forall_mem_cons, List.not_mem_nil, false_implies, implies_true,
    and_true]
  exact ⟨fun c hc => (integer_obeys hc).map _, fun c hc => (float_obeys hc).map _,
    fun c hc => (char_obeys hc).map _⟩

variable {n : Nested}

theorem sequence_obeys (hk : k.variants? = none) (hparams : k ≠ .params) (hn : NestedObeys n)
    (hc : c.Sound) : Obeys k c (sequence k n c) := by
  apply obeys_allowed hk hparams hc _
  intro b hb
  obtain ⟨item, hitem, rfl⟩ := Option.map_eq_some_iff.mp hb
  exact obeys_tagged hk hparams hc fun i hi _ => steady_many (hn.2 item hitem) (hc.inside hi)

theorem value_obeys (hn : NestedObeys n) (hc : c.Sound) : Obeys .value c (value n c) := by
  refine obeys_choice (k := .value) (valueVariants n) rfl hc ?_
  simp only [valueVariants, List.forall_mem_cons, List.not_mem_nil, false_implies, implies_true,
    and_true]
  exact ⟨fun c hc => (primitive_obeys hc).map _, fun c hc => (string_obeys hc).map _,
    fun c hc => (sequence_obeys (k := .array) rfl nofun hn hc).map _,
    fun c hc => (sequence_obeys (k := .tuple) rfl nofun hn hc).map _⟩

theorem term_obeys (hn : NestedObeys n) (hc : c.Sound) : Obeys .term c (term n c) := by
  refine obeys_choice (k := .term) (termVariants n) rfl hc ?_
  simp only [termVariants, List.forall_mem_cons, List.not_mem_nil, false_implies, implies_true,
    and_true]
  exact ⟨fun c hc => (value_obeys hn hc).map _, fun c hc =>
    (obeys_allowed (k := .expression) rfl nofun hc _ fun b hb => hn.1 b hb c hc).map _⟩

theorem expressionWith_obeys (hn : NestedObeys n) (hc : c.Sound) :
    Obeys .expression c (expressionWith n c) := by
  apply obeys_tagged (k := .expression) rfl nofun hc
  intro i hi _
  have hinside := hc.inside hi
  apply steady_bind (steady_required hinside (term_obeys hn hinside) _ _)
  intro left c₁ hc₁
  apply steady_bind (steady_optional hc₁ (operator_obeys hc₁))
  intro o? c₂ hc₂
  cases o? with
  | none => exact steady_pure hc₂ _
  | some o =>
    apply steady_bind (steady_required hc₂ (term_obeys hn hc₂) _ _)
    intro right c₃ hc₃
    exact steady_pure hc₃ _

theorem nested_obeys {a : Nat}
    (h : ∀ a' < a, ∀ c, c.Sound → Obeys .expression c (expression a' c)) :
    NestedObeys (nested a) := by
  constructor
  · intro b hb c hc
    obtain ⟨ha, rfl⟩ := nested_group?_eq_some hb
    exact h _ (Nat.sub_lt_self (by decide) ha) c hc
  · intro b hb c hc
    obtain ⟨ha, rfl⟩ := nested_item?_eq_some hb
    exact h _ (Nat.sub_lt_self (by decide) ha) c hc

theorem expression_obeys (a : Nat) (hc : c.Sound) : Obeys .expression c (expression a c) := by
  induction a using Nat.strongRecOn generalizing c with
  | ind a ih =>
    rw [expression_eq]
    exact expressionWith_obeys (nested_obeys fun a' ha' c hc => ih a' ha' hc) hc

theorem statement_obeys (a : Nat) (hc : c.Sound) : Obeys .statement c (statement a c) := by
  apply obeys_tagged (k := .statement) rfl nofun hc
  intro i hi _
  have hmany := steady_many (fun c hc => expression_obeys a hc) (hc.inside hi)
  exact steady_bind hmany fun _ c' hc' => steady_pure hc' _

theorem program_obeys (a : Nat) (hc : c.Sound) : Obeys .program c (program a c) := by
  apply obeys_tagged (k := .program) rfl nofun hc
  intro i hi _
  exact steady_map (steady_many (fun c hc => statement_obeys a hc) (hc.inside hi)) _

/-! ### Parameters -/

/-- The cursor behind the siblings ahead that have the rule, up to the first that has not. -/
def behindRun (rule : String) (c : Cursor) : Cursor :=
  (c.take (c.siblings.takeWhile (·.rule = rule)).length).2

theorem behindRun_of_match {rule : String} (hi : c.peek? = some i) (hr : i.rule = rule) :
    behindRun rule c = behindRun rule (c.behind i) := by
  simp only [behindRun, Cursor.siblings_of_some hi, List.takeWhile_cons, hr, decide_true, if_true,
    List.length_cons, Cursor.take, Cursor.advance?, hi, Option.map_some]

theorem behindRun_of_mismatch {rule : String} (h : c.rule? ≠ some rule) :
    behindRun rule c = c := by
  cases hi : c.peek? with
  | none =>
    rw [behindRun, Cursor.siblings_of_none hi]
    rfl
  | some i =>
    have hr : i.rule ≠ rule := fun hr => h (by rw [rule?_of_peek? hi, hr])
    rw [behindRun, Cursor.siblings_of_some hi, List.takeWhile_cons_of_neg (by simpa using hr)]
    rfl

theorem rule?_of_matched (hparams : k ≠ .params) (h : ¬Unmatched k c) : c.rule? = some k.rule :=
  Classical.byContradiction fun hrule => h (unmatched_of_rule?_ne hparams hrule)

theorem rule?_of_unmatched (hk : k.variants? = none) (h : Unmatched k c) :
    c.rule? ≠ some k.rule := by
  intro hrule
  obtain ⟨i, hi, hr⟩ := exists_peek? hrule
  rw [unmatched_iff_of_match hi hr, hk] at h
  obtain ⟨kinds, hkinds, -⟩ := h
  cases hkinds

theorem atMost_cursor (hk : k.variants? = none) (hparams : k ≠ .params)
    (hb : ∀ c, c.Sound → Obeys k c (b c)) {n : Nat} (hn : c.remaining < n) (hc : c.Sound)
    {as : List α} (h : (atMost b n c).result = .ok as) :
    (atMost b n c).cursor = behindRun k.rule c := by
  induction n generalizing c as with
  | zero => omega
  | succ n ih =>
    have hobeys := hb c hc
    generalize ho : b c = o at hobeys
    cases hobeys with
    | @done i a log hi hmatched =>
      obtain ⟨j, hj, hr⟩ := exists_peek? (rule?_of_matched hparams hmatched)
      cases hi.symm.trans hj
      have hremaining : (c.behind i).remaining < n := by
        rw [Cursor.remaining, Cursor.siblings_of_some hi, List.length_cons] at hn
        exact Nat.lt_of_succ_lt_succ hn
      rw [atMost_of_ok ho] at h ⊢
      cases hrest : (atMost b n (c.behind i)).result with
      | error e =>
        rw [hrest] at h
        cases h
      | ok rest =>
        rw [behindRun_of_match hi hr]
        exact ih hremaining (hc.behind hi) hrest
    | noMatch hunmatched =>
      rw [atMost_of_noMatch ho]
      exact (behindRun_of_mismatch (rule?_of_unmatched hk hunmatched)).symm
    | fatal =>
      simp [atMost_of_error ho nofun] at h
    | tooDeep =>
      simp [atMost_of_error ho nofun] at h

/-! ### All kinds -/

theorem node_obeys (a : Nat) (hk : k.isGeneral = false) (hparams : k ≠ .params) (hc : c.Sound) :
    Obeys k c (node a k c) := by
  have hn : NestedObeys (nested a) := nested_obeys fun a' _ c hc => expression_obeys a' hc
  cases k with
  | program => exact (program_obeys a hc).map _
  | statement => exact (statement_obeys a hc).map _
  | expression => exact (expression_obeys a hc).map _
  | params => exact absurd rfl hparams
  | array => exact (sequence_obeys (k := .array) rfl nofun hn hc).map _
  | tuple => exact (sequence_obeys (k := .tuple) rfl nofun hn hc).map _
  | term => exact (term_obeys hn hc).map _
  | value => exact (value_obeys hn hc).map _
  | primitive => exact (primitive_obeys hc).map _
  | operator => exact (operator_obeys hc).map _
  | marker o => exact (marker_obeys o hc o).map _
  | integer => exact (integer_obeys hc).map _
  | numeral r => exact (numeral_obeys r hc).map _
  | float => exact (float_obeys hc).map _
  | char => exact (char_obeys hc).map _
  | string => exact (string_obeys hc).map _
  | anyNode | anyChoice | anySequence | anyMarker | anyNumeral => cases hk

/-- **Every builder keeps to the protocol.** Wherever a cursor was moved in the queue of a tree with
legible literals, the builder of a kind goes past its node, or does not match and has done nothing,
or fails for good, before its node when it is for a choice and behind it otherwise. It does not
match exactly where nothing that the kind is built from stands ahead. Parameters always match, and
are followed by the first sibling that is not an expression. -/
theorem node_protocol {settings : Settings} {source : Option (Array Char)} {t : Tree}
    (hlegible : (Cursor.ofTree settings source t).Legible) {c : Cursor}
    (hc : (Cursor.ofTree settings source t).Reaches c) {k : Kind} (hk : k.isGeneral = false)
    {allowance : Nat} (hdepth : (node allowance k c).result ≠ .error .tooDeep) :
    ((∃ n, (node allowance k c).result = .ok n ∧
          if k = .params then (node allowance k c).cursor = behindRun Kind.expression.rule c
          else ∃ i, c.peek? = some i ∧ (node allowance k c).cursor = c.behind i) ∨
        (∃ m, (node allowance k c).result = .error (.noMatch m) ∧
          (node allowance k c).cursor = c ∧ (node allowance k c).log = []) ∨
        (∃ e, (node allowance k c).result = .error (.fatal e) ∧
          (k ≠ .params → ∃ i, c.peek? = some i ∧
            (node allowance k c).cursor = if k.isChoice then c else c.behind i))) ∧
      ((∃ m, (node allowance k c).result = .error (.noMatch m)) ↔ Unmatched k c) ∧
      (k = .params → ∀ m, (node allowance k c).result ≠ .error (.noMatch m)) := by
  have hsound : c.Sound := hc.sound ⟨⟨_, Cursor.over_ofTree settings source t⟩, hlegible⟩
  by_cases hparams : k = .params
  · subst hparams
    have hb : ∀ c, c.Sound → Obeys .expression c (expression allowance c) :=
      fun c hc => expression_obeys allowance hc
    have hsteady : Steady (node allowance .params c) := steady_map (steady_many hb hsound) _
    have hcursor : ∀ es, (many (expression allowance) c).result = .ok es →
        (node allowance .params c).cursor = behindRun Kind.expression.rule c :=
      fun es hes => atMost_cursor (k := .expression) rfl nofun hb (Nat.lt_succ_self _) hsound hes
    have hresult : (node allowance .params c).result
        = (many (expression allowance) c).result.map .params := rfl
    have hnever : ¬Unmatched .params c := not_unmatched_params
    generalize node allowance .params c = o at hsteady hcursor hresult hdepth ⊢
    cases hsteady with
    | done =>
      cases hes : (many (expression allowance) c).result with
      | ok es =>
        refine ⟨.inl ⟨_, rfl, hcursor es hes⟩, ⟨nofun, ?_⟩, fun _ => nofun⟩
        intro h
        exact absurd h hnever
      | error e =>
        rw [hes] at hresult
        cases hresult
    | fatal =>
      refine ⟨.inr (.inr ⟨_, rfl, ?_⟩), ⟨nofun, ?_⟩, fun _ => nofun⟩
      · intro h
        exact absurd rfl h
      · intro h
        exact absurd h hnever
    | tooDeep => exact absurd rfl hdepth
  · have hobeys := node_obeys allowance hk hparams hsound
    generalize node allowance k c = o at hobeys hdepth ⊢
    refine ⟨?_, ?_, fun h => absurd h hparams⟩
    · cases hobeys with
      | done hi =>
        left
        refine ⟨_, rfl, ?_⟩
        rw [if_neg hparams]
        exact ⟨_, hi, rfl⟩
      | noMatch =>
        right; left
        exact ⟨_, rfl, rfl, rfl⟩
      | fatal hi =>
        right; right
        exact ⟨_, rfl, fun _ => ⟨_, hi, rfl⟩⟩
      | tooDeep => exact absurd rfl hdepth
    · -- only the outcome without a match is at a cursor where nothing matches
      cases hobeys with
      | noMatch hunmatched => exact ⟨fun _ => hunmatched, fun _ => ⟨_, rfl⟩⟩
      | done _ hmatched =>
        refine ⟨nofun, ?_⟩
        intro h
        exact absurd h hmatched
      | fatal _ hmatched =>
        refine ⟨nofun, ?_⟩
        intro h
        exact absurd h hmatched
      | tooDeep => exact absurd rfl hdepth

/-- An integer among the primitives. -/
def seven : Tree :=
  .node "primitive_value" none
    [.node "integer" none [.node "integer_dec" none [.token ⟨"DEC_INT", "7", {}⟩]]]

/-- A cursor inside of the node of the primitive. -/
def insideSeven : Cursor :=
  (Cursor.ofTree {} none seven).inside ⟨0, 0, ⟨⟨"primitive_value", "7", {}⟩, 2⟩⟩

/-- Inside of the node of a primitive, the builder of integers goes past the integer. -/
theorem node_protocol_seven :
    (Cursor.ofTree {} none seven).Legible ∧ (Cursor.ofTree {} none seven).Reaches insideSeven ∧
      (node 900 .integer insideSeven).result = .ok (.integer .decimal 7) ∧
      ∃ i, insideSeven.peek? = some i ∧
        (node 900 .integer insideSeven).cursor = insideSeven.behind i := by
  have hlegible : (Cursor.ofTree {} none seven).Legible := by decide +kernel
  have hc : (Cursor.ofTree {} none seven).Reaches insideSeven := .inside .start (by decide)
  have hok : (node 900 .integer insideSeven).result = .ok (.integer .decimal 7) := by rfl
  refine ⟨hlegible, hc, hok, ?_⟩
  have hdepth : (node 900 .integer insideSeven).result ≠ .error .tooDeep := by simp [hok]
  rcases (node_protocol hlegible hc (k := .integer) (by decide) hdepth).1 with
    ⟨n, -, hcursor⟩ | ⟨m, hm, -⟩ | ⟨e, he, -⟩
  · exact hcursor
  · simp [hok] at hm
  · simp [hok] at he

end Builder

end RuleTree
