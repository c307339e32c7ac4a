import RuleTree.Proofs.Builder.Agreement
import RuleTree.Proofs.List.Related
import RuleTree.Session

/-!
# Walks over a tree

A walk asks the cursors of a session for what is ahead, goes past siblings, and opens cursors over
the children of nodes that it was handed, one after the other and in any order. All cursors are
pairs of numbers in one queue. An outline is what a walk would be without a queue: in place of each
cursor it has the list of the nodes that are still to be read at its level.

* `Walk`, `Move`: sessions together with the nodes that were handed out.
* `Outline`: the same over lists of trees.
* `Follows`: a walk is at the place of an outline.
* `Follows.step`, `Follows.run`: one move, and all moves one after the other.
* `walk_follows`: every walk from the root answers as its outline does.
-/

namespace RuleTree

/-! ### Walks -/

/-- What a cursor is asked. -/
inductive Query
  | peek
  | check (rules : List String)
  | advance
  | remaining
  | iterate (count : Option Nat)

/-- A step of a walk. -/
inductive Move
  /-- Puts a query to the cursor of a number. -/
  | ask (number : Nat) (q : Query)
  /-- Opens a cursor over the children of the node ahead of the cursor of a number. -/
  | inside (number : Nat)
  /-- Opens a cursor over the children of a node that was handed out. -/
  | enter (number : Nat)

namespace Query

/-- The query as a command of a session. -/
def command : Query → Command
  | peek => .peek
  | check rules => .check rules
  | advance => .advance
  | remaining => .remaining
  | iterate count => .iterate count

/-- The nodes that a cursor hands out in answer to a query. -/
def items (c : Cursor) : Query → List Item
  | peek | advance => c.peek?.toList
  | iterate count => ((count.map (c.take ·)).getD c.takeAll).1
  | check _ | remaining => []

/-- Whether a query goes past what it hands out. -/
def Consumes (q : Query) : Prop := q = advance ∨ ∃ count, q = iterate count

end Query

/-- A session, the nodes that were handed out by its cursors, and all answers so far. -/
structure Walk where
  session : Session
  held : List (Cursor × Item)
  replies : List (Except Failure Reply)

namespace Walk

def start (c : Cursor) : Walk := ⟨.start c, [], []⟩

/-- Opens a cursor over the children of a node that a cursor handed out. -/
def enter (w : Walk) (c : Cursor) (i : Item) : Walk :=
  ⟨⟨w.session.cursors ++ [(c.inside i, some i.entry.site)]⟩, w.held,
    w.replies ++ [.ok (.opened w.session.cursors.length i.entry.site)]⟩

/-- A step of a walk. Nothing comes of a cursor or a node that there is not. -/
def step (w : Walk) : Move → Walk
  | .ask number q =>
    match w.session.cursors[number]?, w.session.step number q.command with
    | some (c, _), some (s, reply, _) =>
      ⟨s, w.held ++ (q.items c).map (c, ·), w.replies ++ [reply]⟩
    | _, _ => w
  | .inside number =>
    match w.session.step number .inside with
    | some (s, reply, _) => ⟨s, w.held, w.replies ++ [reply]⟩
    | none => w
  | .enter number =>
    match w.held[number]? with
    | some (c, i) => w.enter c i
    | none => w

/-- A walk after some steps. -/
def run (w : Walk) (moves : List Move) : Walk := moves.foldl step w

end Walk

/-! ### Outlines -/

/-- The nodes that are still to be read at each level, the nodes that were handed out, and all
answers so far. -/
structure Outline where
  levels : List (List Tree)
  held : List Tree
  replies : List (Except Failure Reply)

namespace Query

/-- How many nodes of a level a query goes past. -/
def width (ts : List Tree) : Query → Nat
  | advance => 1
  | iterate count => count.getD ts.length
  | _ => 0

/-- The nodes of a level that are handed out in answer to a query. -/
def nodes (ts : List Tree) : Query → List Tree
  | peek => ts.take 1
  | q => ts.take (q.width ts)

/-- What a level answers to a query. -/
def reply (d : Descent) (ts : List Tree) : Query → Except Failure Reply
  | peek => .ok ((ts.head?.map (.site <| d.site ·)).getD .nothing)
  | check rules => .ok (.flag (ts.head?.any fun t => rules.contains (d.site t).rule))
  | advance => (ts.head?.map (.ok <| .site <| d.site ·)).getD (.error .exhausted)
  | remaining => .ok (.count ts.length)
  | iterate count => .ok (.rules ((ts.take (count.getD ts.length)).map (d.site · |>.rule)))

end Query

namespace Outline

/-- The outline before the root of a tree. -/
def start (t : Tree) : Outline := ⟨[[t]], [], []⟩

/-- Opens a level over the nodes below a node. -/
def enter (d : Descent) (o : Outline) (t : Tree) : Outline :=
  ⟨o.levels ++ [t.subtrees], o.held, o.replies ++ [.ok (.opened o.levels.length (d.site t))]⟩

/-- A step of an outline. -/
def step (d : Descent) (o : Outline) : Move → Outline
  | .ask number q =>
    match o.levels[number]? with
    | some ts =>
      ⟨o.levels.set number (ts.drop (q.width ts)), o.held ++ q.nodes ts,
        o.replies ++ [q.reply d ts]⟩
    | none => o
  | .inside number =>
    match o.levels[number]? with
    | some (t :: _) => o.enter d t
    | some [] => ⟨o.levels, o.held, o.replies ++ [.ok .nothing]⟩
    | none => o
  | .enter number =>
    match o.held[number]? with
    | some t => o.enter d t
    | none => o

/-- An outline after some steps. -/
def run (d : Descent) (o : Outline) (moves : List Move) : Outline := moves.foldl (step d) o

end Outline

/-! ### One cursor -/

/-- The node of a tree that was handed out by a cursor over a queue. -/
structure Holds (d : Descent) (queue : Array Entry) (p : Cursor × Item) (t : Tree) : Prop where
  queue_eq : p.1.queue = queue
  site_eq : p.2.entry.site = d.site t
  inside : (p.1.inside p.2).Before d t.subtrees

/-- The cursor over a queue stands before the nodes of a level. -/
structure Stands (d : Descent) (queue : Array Entry) (c : Cursor) (ts : List Tree) : Prop where
  queue_eq : c.queue = queue
  before : c.Before d ts

variable {d : Descent} {queue : Array Entry} {c : Cursor} {t : Tree} {ts : List Tree}

namespace Stands

theorem bounds (h : Stands d queue c ts) :
    0 ≤ c.pos ∧ c.pos ≤ c.stop ∧ c.stop ≤ queue.size := by
  obtain ⟨rfl, hc⟩ := h
  obtain ⟨front, back, hqueue, hpos, hstop⟩ := hc.stands.segment
  have hsize : c.queue.size =
      front.length + (Branch.entriesOf (Tree.branchesOf d.source ts)).length + back.length := by
    rw [← Array.length_toList, hqueue, List.length_append, List.length_append]
  omega

theorem exists_item (h : Stands d queue c (t :: ts)) :
    ∃ i, c.peek? = some i ∧ Holds d queue (c, i) t ∧ Stands d queue (c.behind i) ts := by
  obtain ⟨i, hi, hsite, -, hinside, hbehind⟩ := h.before.exists_item
  exact ⟨i, hi, ⟨h.queue_eq, hsite, hinside⟩, h.queue_eq, hbehind⟩

theorem peek?_nil (h : Stands d queue c []) : c.peek? = none := by
  rw [Cursor.peek?, h.before.ahead_nil]

theorem take_nil (h : Stands d queue c []) (n : Nat) : c.take n = ([], c) := by
  cases n with
  | zero => rfl
  | succ n =>
    rw [Cursor.take, Cursor.advance?, h.peek?_nil]
    rfl

theorem take (h : Stands d queue c ts) (n : Nat) :
    List.Forall₂ (fun i t => Holds d queue (c, i) t) (c.take n).1 (ts.take n) ∧
      Stands d queue (c.take n).2 (ts.drop n) := by
  induction n generalizing c ts with
  | zero => exact ⟨.nil, h⟩
  | succ n ih =>
    cases ts with
    | nil =>
      rw [h.take_nil]
      exact ⟨.nil, h⟩
    | cons t ts =>
      obtain ⟨i, hi, hholds, hbehind⟩ := h.exists_item
      have htake : c.take (n + 1) = (i :: ((c.behind i).take n).1, ((c.behind i).take n).2) := by
        rw [Cursor.take, Cursor.advance?, hi]
        rfl
      obtain ⟨hitems, hlast⟩ := ih hbehind
      rw [htake]
      -- it does not matter which cursor over the queue handed out a node
      exact ⟨.cons hholds (hitems.imp fun _ _ h => ⟨h.queue_eq, h.site_eq, h.inside⟩), hlast⟩

theorem getD_take (h : Stands d queue c ts) (count : Option Nat) :
    (count.map (c.take ·)).getD c.takeAll = c.take (count.getD ts.length) := by
  cases count with
  | none => rw [Option.map_none, Option.getD_none, Option.getD_none, Cursor.takeAll,
      Builder.remaining_of_before h.before]
  | some n => rfl

/-- A cursor answers a query as its level does, and is then before what is left of the level. It is
moved only by a query that goes past something. -/
theorem perform (h : Stands d queue c ts) (owner : Option Site) (q : Query) :
    ∃ c', Session.perform owner q.command c = ⟨(q.reply d ts).map .answer, c', []⟩ ∧
      Stands d queue c' (ts.drop (q.width ts)) ∧ (c' = c ∨ q.Consumes ∧ ts ≠ []) := by
  have hahead : c.ahead ≠ .outside := h.before.ahead_ne_outside
  cases q with
  | peek =>
    refine ⟨c, ?_, h, .inl rfl⟩
    rw [Query.command, Session.perform, Session.looking, if_neg hahead]
    cases ts with
    | nil =>
      rw [Session.reading, h.peek?_nil]
      rfl
    | cons t ts =>
      obtain ⟨i, hi, hholds, -⟩ := h.exists_item
      rw [Session.reading, hi, Option.map_some, hholds.site_eq]
      rfl
  | check rules =>
    refine ⟨c, ?_, h, .inl rfl⟩
    rw [Query.command, Session.perform, Session.looking, if_neg hahead]
    cases ts with
    | nil =>
      rw [Session.reading, Cursor.check, h.before.rule?_nil]
      rfl
    | cons t ts =>
      obtain ⟨i, hi, hholds, -⟩ := h.exists_item
      rw [Session.reading, Cursor.check, Builder.rule?_of_peek? hi, Item.rule, hholds.site_eq]
      rfl
  | advance =>
    cases ts with
    | nil =>
      refine ⟨c, ?_, h, .inl rfl⟩
      have hpending : Session.pending .exhausted c = ⟨.error .exhausted, c, []⟩ := by
        rw [Session.pending, h.before.ahead_nil]
        rfl
      exact Builder.bind_of_error hpending _
    | cons t ts =>
      obtain ⟨i, hi, hholds, hbehind⟩ := h.exists_item
      refine ⟨c.behind i, ?_, hbehind, .inr ⟨.inl rfl, List.cons_ne_nil t ts⟩⟩
      have hpending : Session.pending .exhausted c = ⟨.ok i, c, []⟩ := by
        rw [Session.pending, Cursor.peek?_eq_some_iff.mp hi]
      refine (Builder.bind_of_ok hpending _).trans ?_
      rw [hholds.site_eq]
      rfl
  | remaining =>
    refine ⟨c, ?_, h, .inl rfl⟩
    have hlast : c.last.ahead ≠ .outside := by
      rw [Cursor.last, Cursor.takeAll]
      exact (h.take c.remaining).2.before.ahead_ne_outside
    rw [Query.command, Session.perform, Session.surveying, if_neg hlast, Session.reading,
      Builder.remaining_of_before h.before]
    rfl
  | iterate count =>
    obtain ⟨hitems, hlast⟩ := h.take (count.getD ts.length)
    refine ⟨(c.take (count.getD ts.length)).2, ?_, hlast, ?_⟩
    · have hrules : (c.take (count.getD ts.length)).1.map Item.rule =
          (ts.take (count.getD ts.length)).map (d.site · |>.rule) :=
        map_eq_of_forall₂ (hitems.imp fun i t hholds => congrArg Site.rule hholds.site_eq)
      have hinside : ¬((c.take (count.getD ts.length)).2.ahead = .outside ∧
          count ≠ some (c.take (count.getD ts.length)).1.length) :=
        fun h => hlast.before.ahead_ne_outside h.1
      rw [Query.command, Session.perform, Session.iterate, h.getD_take]
      refine (if_neg hinside).trans ?_
      rw [hrules]
      rfl
    · cases ts with
      | nil => exact .inl (congrArg Prod.snd (h.take_nil _))
      | cons t ts => exact .inr ⟨.inr ⟨count, rfl⟩, List.cons_ne_nil t ts⟩

theorem items (h : Stands d queue c ts) (q : Query) :
    List.Forall₂ (Holds d queue) ((q.items c).map (c, ·)) (q.nodes ts) := by
  rw [List.forall₂_map_left_iff]
  have hpeek : List.Forall₂ (fun i t => Holds d queue (c, i) t) c.peek?.toList (ts.take 1) := by
    cases ts with
    | nil =>
      rw [h.peek?_nil]
      exact .nil
    | cons t ts =>
      obtain ⟨i, hi, hholds, -⟩ := h.exists_item
      rw [hi]
      exact .cons hholds .nil
  cases q with
  | peek => exact hpeek
  | advance => exact hpeek
  | check => exact .nil
  | remaining => exact .nil
  | iterate count =>
    rw [Query.items, h.getD_take]
    exact (h.take _).1

end Stands

/-! ### All cursors -/

/-- The walk is at the place of the outline: it has a cursor for each level, it was handed the same
nodes, and it has given the same answers. -/
structure Follows (d : Descent) (queue : Array Entry) (w : Walk) (o : Outline) : Prop where
  cursors : List.Forall₂ (fun p ts => Stands d queue p.1 ts) w.session.cursors o.levels
  held : List.Forall₂ (Holds d queue) w.held o.held
  replies : w.replies = o.replies

variable {w : Walk} {o : Outline} {n : Nat} {owner : Option Site}

theorem Session.step_of_answer {s : Session} (hc : s.cursors[n]? = some (c, owner))
    {command : Command} {r : Except Failure Reply} {c' : Cursor}
    (ho : perform owner command c = ⟨r.map .answer, c', []⟩) :
    s.step n command = some (⟨s.cursors.set n (c', owner)⟩, r, []) := by
  simp only [step, hc, Option.map_some, ho]
  cases r <;> rfl

theorem set_of_getElem? {α : Type} {as : List α} {a : α} (h : as[n]? = some a) :
    as.set n a = as := by
  obtain ⟨hn, rfl⟩ := List.getElem?_eq_some_iff.mp h
  exact List.set_getElem_self hn

theorem Walk.step_ask (hc : w.session.cursors[n]? = some (c, owner)) (h : Stands d queue c ts)
    (q : Query) :
    ∃ c', w.step (.ask n q) = ⟨⟨w.session.cursors.set n (c', owner)⟩,
        w.held ++ (q.items c).map (c, ·), w.replies ++ [q.reply d ts]⟩ ∧
      Stands d queue c' (ts.drop (q.width ts)) ∧ (c' = c ∨ q.Consumes ∧ ts ≠ []) := by
  obtain ⟨c', hperform, hstands, hmoved⟩ := h.perform owner q
  refine ⟨c', ?_, hstands, hmoved⟩
  rw [step, hc, Session.step_of_answer hc hperform]

theorem Walk.step_inside_cons (hc : w.session.cursors[n]? = some (c, owner))
    (h : Stands d queue c (t :: ts)) :
    ∃ i, Holds d queue (c, i) t ∧ w.step (.inside n) = w.enter c i := by
  obtain ⟨i, hi, hholds, -⟩ := h.exists_item
  refine ⟨i, hholds, ?_⟩
  have hperform : Session.perform owner .inside c = ⟨.ok (.opening i), c, []⟩ := by
    simp only [Session.perform, Cursor.peek?_eq_some_iff.mp hi]
  simp only [step, Session.step, hc, Option.map_some, hperform, set_of_getElem? hc]
  rfl

theorem Walk.step_inside_nil (hc : w.session.cursors[n]? = some (c, owner))
    (h : Stands d queue c []) :
    w.step (.inside n) = ⟨w.session, w.held, w.replies ++ [.ok .nothing]⟩ := by
  have hperform : Session.perform owner .inside c =
      ⟨(Except.ok Reply.nothing).map .answer, c, []⟩ := by
    simp only [Session.perform, h.before.ahead_nil]
    rfl
  rw [step, Session.step_of_answer hc hperform, set_of_getElem? hc]

theorem Follows.cursor_cases (h : Follows d queue w o) (n : Nat) :
    (w.session.cursors[n]? = none ∧ o.levels[n]? = none) ∨
      ∃ c owner ts, w.session.cursors[n]? = some (c, owner) ∧ o.levels[n]? = some ts ∧
        Stands d queue c ts := by
  rcases forall₂_getElem?_cases h.cursors n with hnone | ⟨⟨c, owner⟩, ts, hc, hts, hstands⟩
  · exact .inl hnone
  · exact .inr ⟨c, owner, ts, hc, hts, hstands⟩

theorem Follows.enter (h : Follows d queue w o) {i : Item} (hi : Holds d queue (c, i) t) :
    Follows d queue (w.enter c i) (o.enter d t) := by
  refine ⟨?_, h.held, ?_⟩
  · exact List.rel_append h.cursors (.cons ⟨hi.queue_eq, hi.inside⟩ .nil)
  · rw [Walk.enter, Outline.enter, h.replies, h.cursors.length_eq, hi.site_eq]

/-- **One move.** A walk at the place of an outline is at its place again after a move. -/
theorem Follows.step (h : Follows d queue w o) (m : Move) :
    Follows d queue (w.step m) (o.step d m) := by
  cases m with
  | ask n q =>
    rcases h.cursor_cases n with ⟨hc, hts⟩ | ⟨c, owner, ts, hc, hts, hstands⟩
    · rw [Walk.step, hc, Outline.step, hts]
      exact h
    · obtain ⟨c', hstep, hafter, -⟩ := Walk.step_ask hc hstands q
      rw [hstep, Outline.step, hts]
      refine ⟨forall₂_set h.cursors hafter n, List.rel_append h.held (hstands.items q), ?_⟩
      rw [h.replies]
  | inside n =>
    rcases h.cursor_cases n with ⟨hc, hts⟩ | ⟨c, owner, ts, hc, hts, hstands⟩
    · rw [Walk.step, Session.step, hc, Outline.step, hts]
      exact h
    · rw [Outline.step, hts]
      cases ts with
      | nil =>
        rw [Walk.step_inside_nil hc hstands]
        exact ⟨h.cursors, h.held, congrArg (· ++ [.ok .nothing]) h.replies⟩
      | cons t ts =>
        obtain ⟨i, hi, hstep⟩ := Walk.step_inside_cons hc hstands
        rw [hstep]
        exact h.enter hi
  | enter n =>
    rcases forall₂_getElem?_cases h.held n with ⟨hp, ht⟩ | ⟨⟨c, i⟩, t, hp, ht, hholds⟩
    · rw [Walk.step, hp, Outline.step, ht]
      exact h
    · rw [Walk.step, hp, Outline.step, ht]
      exact h.enter hholds

/-- **All moves.** A walk at the place of an outline stays with it. -/
theorem Follows.run (h : Follows d queue w o) (moves : List Move) :
    Follows d queue (w.run moves) (o.run d moves) := by
  induction moves generalizing w o with
  | nil => exact h
  | cons m ms ih => exact ih (h.step m)

theorem Follows.cursor_eq (h : Follows d queue w o) {p : Cursor × Option Site}
    (hp : w.session.cursors[n]? = some p) (m : Move) :
    (w.step m).session.cursors[n]? = some p ∨
      ∃ q, m = .ask n q ∧ q.Consumes ∧ o.levels[n]? ≠ some [] := by
  have hopened (p' : Cursor × Option Site) :
      (w.session.cursors ++ [p'])[n]? = some p :=
    (List.getElem?_append_left (List.getElem?_eq_some_iff.mp hp).1).trans hp
  cases m with
  | ask k q =>
    rcases h.cursor_cases k with ⟨hc, hts⟩ | ⟨c, owner, ts, hc, hts, hstands⟩
    · left
      rw [Walk.step, hc]
      exact hp
    · obtain ⟨c', hstep, -, hmoved⟩ := Walk.step_ask hc hstands q
      rw [hstep]
      rcases hmoved with rfl | ⟨hconsumes, hne⟩
      · left
        rwa [set_of_getElem? hc]
      · by_cases hk : k = n
        · subst hk
          exact .inr ⟨q, rfl, hconsumes, fun hts' => hne (Option.some.inj (hts.symm.trans hts'))⟩
        · left
          rwa [List.getElem?_set_ne hk]
  | inside k =>
    left
    rcases h.cursor_cases k with ⟨hc, hts⟩ | ⟨c, owner, ts, hc, hts, hstands⟩
    · rw [Walk.step, Session.step, hc]
      exact hp
    · cases ts with
      | nil =>
        rw [Walk.step_inside_nil hc hstands]
        exact hp
      | cons t ts =>
        obtain ⟨i, -, hstep⟩ := Walk.step_inside_cons hc hstands
        rw [hstep]
        exact hopened _
  | enter k =>
    left
    rw [Walk.step]
    split
    · exact hopened _
    · exact hp

/-! ### Walks from the root -/

theorem follows_start (settings : Settings) (source : Option (Array Char)) {t : Tree}
    (ht : t.isNode) :
    Follows ⟨source, settings⟩ (Cursor.ofTree settings source t).queue
      (.start (Cursor.ofTree settings source t)) (.start t) :=
  ⟨.cons ⟨rfl, Cursor.before_ofTree settings source ht⟩ .nil, .nil, rfl⟩

theorem Query.reply_ne_outside (q : Query) (d : Descent) (ts : List Tree) :
    q.reply d ts ≠ .error .outside := by
  cases q with
  | advance => cases ts <;> nofun
  | _ => nofun

theorem Outline.reply_ne_outside {o : Outline} (h : ∀ r ∈ o.replies, r ≠ .error .outside)
    (m : Move) : ∀ r ∈ (o.step d m).replies, r ≠ .error .outside := by
  have happend {r : Except Failure Reply} (hr : r ≠ .error .outside) :
      ∀ r' ∈ o.replies ++ [r], r' ≠ .error .outside := by
    intro r' hr'
    rcases List.mem_append.mp hr' with hr' | hr'
    · exact h r' hr'
    · rwa [List.mem_singleton.mp hr']
  cases m with
  | ask n q =>
    rw [step]
    split
    · exact happend (q.reply_ne_outside d _)
    · exact h
  | inside n =>
    rw [step]
    split
    · exact happend nofun
    · exact happend nofun
    · exact h
  | enter n =>
    rw [step]
    split
    · exact happend nofun
    · exact h

theorem Outline.run_replies_ne_outside {o : Outline} (h : ∀ r ∈ o.replies, r ≠ .error .outside)
    (moves : List Move) : ∀ r ∈ (o.run d moves).replies, r ≠ .error .outside := by
  induction moves generalizing o with
  | nil => exact h
  | cons m ms ih => exact ih (o.reply_ne_outside h m)

/-- **A walk over a queue is a walk over the tree.** Whatever is done from the root of a tree and in
whatever order, each cursor stands before exactly the nodes that are still to be read at its level,
what was handed out are nodes of the tree with the cursors over their children, and all answers are
those of the levels. Every cursor is in the queue of the root and under its settings, its segment is
within the queue, and nothing that is outside the queue is ever looked at. A move leaves each cursor
where it is, unless it is one that goes past something at that cursor. -/
theorem walk_follows (settings : Settings) (source : Option (Array Char)) (rule : String)
    (region? : Option Region) (children : List Tree) (moves : List Move) :
    let t := Tree.node rule region? children
    let root := Cursor.ofTree settings source t
    let w := (Walk.start root).run moves
    let o := (Outline.start t).run ⟨source, settings⟩ moves
    Follows ⟨source, settings⟩ root.queue w o ∧
      (∀ p ∈ w.session.cursors, 0 ≤ p.1.pos ∧ p.1.pos ≤ p.1.stop ∧
        p.1.stop ≤ root.queue.size ∧ p.1.queue = root.queue ∧ p.1.settings = settings) ∧
      (∀ r ∈ w.replies, r ≠ .error .outside) ∧
      ∀ n p m, w.session.cursors[n]? = some p → (w.step m).session.cursors[n]? = some p ∨
        ∃ q, m = .ask n q ∧ q.Consumes ∧ o.levels[n]? ≠ some [] := by
  intro t root w o
  have hfollows : Follows ⟨source, settings⟩ root.queue w o :=
    (follows_start settings source rfl).run moves
  refine ⟨hfollows, fun p hp => ?_, ?_, fun n p m hp => hfollows.cursor_eq hp m⟩
  · obtain ⟨n, hn⟩ := List.getElem?_of_mem hp
    rcases hfollows.cursor_cases n with ⟨hnone, -⟩ | ⟨c, owner, ts, hc, -, hstands⟩
    · cases hn.symm.trans hnone
    · cases hn.symm.trans hc
      obtain ⟨hpos, hstop, hsize⟩ := hstands.bounds
      exact ⟨hpos, hstop, hsize, hstands.queue_eq, hstands.before.stands.settings_eq⟩
  · rw [hfollows.replies]
    exact Outline.run_replies_ne_outside (fun _ hr => absurd hr List.not_mem_nil) moves

/-- Past the integer inside of a primitive, and past the primitive itself. -/
def detour : List Move :=
  [.ask 0 .peek, .inside 0, .ask 1 .advance, .ask 1 .remaining, .enter 0,
    .ask 0 (.iterate none), .ask 0 .advance]

/-- The cursor before the primitive does not notice what is done inside of it. -/
theorem walk_follows_seven :
    ((Walk.start (Cursor.ofTree {} none Builder.seven)).run detour).replies =
      [.ok (.site ⟨"primitive_value", "7", {}⟩), .ok (.opened 1 ⟨"primitive_value", "7", {}⟩),
        .ok (.site ⟨"integer", "7", {}⟩), .ok (.count 0),
        .ok (.opened 2 ⟨"primitive_value", "7", {}⟩), .ok (.rules ["primitive_value"]),
        .error .exhausted] := by
  have hwalk := walk_follows {} none "primitive_value" none
    [.node "integer" none [.node "integer_dec" none [.token ⟨"DEC_INT", "7", {}⟩]]] detour
  exact hwalk.1.replies.trans rfl

end RuleTree
