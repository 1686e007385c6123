import SlotScript.Proofs.Flat.Stack

/-!
# Machines that track builders

`Tracks` relates the states of the two builders between tokens: their stacks hold the same trees, they
remember the same of the token before, and the tokens so far pay for everything in the arena.

A machine remembers how many tokens it had read when a call or a header was closed last, where a
builder remembers that the token before closed one. The two come to the same (`Preceded`).
-/

namespace SlotScript.Flat

/-! ## The token before -/

/-- The kind of the token that the builder remembers. -/
def kindOf? : Previous → Option TokenKind
  | .start => none
  | .closedHeader | .closedCall => some (.word ")")
  | .token kind => some kind

/-- The machine remembers the same of the token before as the builder. -/
structure Preceded (m : Machine) (previous : Previous) : Prop where
  current : m.current.map Token.kind = kindOf? previous
  header : m.headerEnd = some m.read ↔ previous = .closedHeader
  call : m.callEnd = some m.read ↔ previous = .closedCall
  headerEnd : ∀ i ∈ m.headerEnd, i ≤ m.read
  callEnd : ∀ i ∈ m.callEnd, i ≤ m.read

namespace Preceded

variable {m : Machine} {previous : Previous} {token : Token} {rest : List Token}

theorem next (h : Preceded m previous) (hrest : m.rest = token :: rest) :
    Preceded m.next (.token token.kind) := by
  have hnext : ∀ {stop : Option Nat}, (∀ i ∈ stop, i ≤ m.read) →
      (∀ i ∈ stop, i ≤ m.read + 1) ∧ stop ≠ some (m.read + 1) := by
    intro stop hstop
    refine ⟨fun i hi => Nat.le_succ_of_le (hstop i hi), ?_⟩
    rintro rfl
    exact Nat.not_succ_le_self _ (hstop _ rfl)
  rw [Machine.next, hrest]
  exact ⟨rfl, iff_of_false (hnext h.headerEnd).2 (by simp), iff_of_false (hnext h.callEnd).2 (by simp),
    (hnext h.headerEnd).1, (hnext h.callEnd).1⟩

theorem follows_next {stop : Option Nat} (hrest : m.rest = token :: rest) :
    m.next.follows stop = decide (stop = some m.read) := by
  rw [Machine.follows, Machine.next, hrest]
  cases stop with
  | none => rfl
  | some i =>
    rw [Option.any_some, Bool.eq_iff_iff, beq_iff_eq, decide_eq_true_iff, Option.some.injEq,
      Nat.add_right_cancel_iff]

/-- A `-` subtracts in both builders or in none. -/
theorem followsOperand (h : Preceded m previous) (hrest : m.rest = token :: rest) :
    m.next.followsOperand = previous.endsOperand := by
  have hcurrent := h.current
  have hprevious : m.next.previous = m.current := by rw [Machine.next, hrest]
  have hend : m.next.headerEnd = m.headerEnd := by rw [Machine.next, hrest]
  rw [Machine.followsOperand, hprevious, follows_next hrest, hend]
  cases previous with
  | start =>
    rw [Option.map_eq_none_iff.1 hcurrent]
    rfl
  | closedHeader =>
    obtain ⟨before, hbefore, hkind⟩ := Option.map_eq_some_iff.1 hcurrent
    simp [hbefore, h.header.2 rfl, Previous.endsOperand]
  | closedCall =>
    obtain ⟨before, hbefore, hkind⟩ := Option.map_eq_some_iff.1 hcurrent
    have hheader : m.headerEnd ≠ some m.read := fun heq => by cases h.header.1 heq
    simp only [hbefore, hkind, hheader, decide_false, Bool.not_false, Bool.true_and]
    rfl
  | token kind =>
    obtain ⟨before, hbefore, hkind⟩ := Option.map_eq_some_iff.1 hcurrent
    have hheader : m.headerEnd ≠ some m.read := fun heq => by cases h.header.1 heq
    simp only [hbefore, hkind, hheader, decide_false, Bool.not_false, Bool.true_and]
    cases kind <;> rfl

/-- A `(` calls in both builders or in none. -/
theorem followsCallable (h : Preceded m previous) (hrest : m.rest = token :: rest) :
    m.next.followsCallable = previous.isCallable := by
  have hcurrent := h.current
  have hprevious : m.next.previous = m.current := by rw [Machine.next, hrest]
  have hend : m.next.callEnd = m.callEnd := by rw [Machine.next, hrest]
  rw [Machine.followsCallable, hprevious, follows_next hrest, hend]
  have hcall : ∀ {previous' : Previous}, previous = previous' → previous' ≠ .closedCall →
      decide (m.callEnd = some m.read) = false := by
    rintro _ rfl hne
    exact decide_eq_false fun heq => hne (h.call.1 heq)
  cases previous with
  | start =>
    rw [Option.map_eq_none_iff.1 hcurrent, hcall rfl (by simp)]
    rfl
  | closedHeader =>
    obtain ⟨before, hbefore, hkind⟩ := Option.map_eq_some_iff.1 hcurrent
    rw [hbefore, hcall rfl (by simp)]
    simp only [Option.bind_some, hkind, Bool.or_false]
    rfl
  | closedCall => simp [h.call.2 rfl, Previous.isCallable]
  | token kind =>
    obtain ⟨before, hbefore, hkind⟩ := Option.map_eq_some_iff.1 hcurrent
    rw [hbefore, hcall rfl (by simp)]
    simp only [Option.bind_some, hkind, Bool.or_false]
    cases kind <;> rfl

theorem closedCall (h : Preceded m (.token (.word ")"))) :
    Preceded { m with callEnd := some m.read } .closedCall where
  current := h.current
  header := iff_of_false (fun heq => by cases h.header.1 heq) (by simp)
  call := iff_of_true rfl rfl
  headerEnd := h.headerEnd
  callEnd := fun i hi => (Option.some.inj hi).symm.le

theorem closedHeader (h : Preceded m (.token (.word ")"))) :
    Preceded { m with headerEnd := some m.read } .closedHeader where
  current := h.current
  header := iff_of_true rfl rfl
  call := iff_of_false (fun heq => by cases h.call.1 heq) (by simp)
  headerEnd := fun i hi => (Option.some.inj hi).symm.le
  callEnd := h.callEnd

end Preceded

/-! ## Tracking -/

/-- The stacks of a machine and a builder hold the same trees, besides something to spare. -/
def Stacked (spare : Holding) (pending : Option (FunctionHead × Bool)) (m : Machine) (b : Builder) :
    Prop :=
  ∃ h, HeldFrames m.arena b.root pending h m.frames b.frames ∧ m.arena.Covers m.read (h + spare)

/-- The machines differ in arena and frames only. -/
def Restacked (m m' : Machine) : Prop := ∃ a frames, m' = { m with arena := a, frames := frames }

namespace Restacked

variable {m m' m'' : Machine}

theorem trans (h : Restacked m m') (h' : Restacked m' m'') : Restacked m m'' := by
  obtain ⟨a, frames, rfl⟩ := h
  obtain ⟨a', frames', rfl⟩ := h'
  exact ⟨a', frames', rfl⟩

theorem read_eq (h : Restacked m m') : m'.read = m.read := by
  obtain ⟨a, frames, rfl⟩ := h
  rfl

theorem rest_eq (h : Restacked m m') : m'.rest = m.rest := by
  obtain ⟨a, frames, rfl⟩ := h
  rfl

end Restacked

namespace Stacked

variable {spare spare' h h' : Holding} {pending pending' : Option (FunctionHead × Bool)} {m : Machine}
  {b : Builder}

/-- The innermost level is changed. -/
theorem mapTop (hs : Stacked spare pending m b) {f : Frame → Frame} {g : Level → Level}
    (hfg : ∀ {hl frame}, HeldPending m.arena pending hl frame b.level →
      ∃ hl', HeldPending m.arena pending' hl' (f frame) (g b.level) ∧ frame.Same (f frame) ∧
        hl' + spare' ≤ hl + spare) :
    ∃ m', m.mapTop f = .ok m' ∧ Restacked m m' ∧ Stacked spare' pending' m' (b.mapLevel g) := by
  obtain ⟨h, hframes, hc⟩ := hs
  obtain ⟨frame, outer, hl, ho, houter, rfl, hlevel, haround⟩ := hframes.zoom
  obtain ⟨hl', hlevel', hsame, hle⟩ := hfg hlevel
  refine ⟨{ m with frames := f frame :: outer }, by rw [Machine.mapTop, houter], ⟨_, _, rfl⟩,
    hl' + ho, haround (.refl _) hlevel' hsame, hc.mono ?_⟩
  rw [add_right_comm, add_right_comm hl]
  exact add_le_add_left hle ho

/-- The innermost level is changed by a step that can fail. -/
theorem tryTop_refines (hs : Stacked spare none m b)
    {f : Frame → Arena → Except Halt (Frame × Arena)} {g : Level → Except BuildError Level}
    (hfg : ∀ {a : Arena} {h rest : Holding} {frame : Frame} {level : Level},
      HeldLevel a h frame level → a.Covers m.read (h + rest) →
      Refines (Yields a m.read rest (HeldFrame frame)) (f frame a) (g level)) :
    Refines (fun m' b' => Restacked m m' ∧ Stacked spare none m' b' ∧
      ∃ level, g b.level = .ok level ∧ b' = b.setLevel level) (m.tryTop f) (b.tryLevel g) := by
  obtain ⟨h, hframes, hc⟩ := hs
  obtain ⟨frame, outer, hl, ho, houter, rfl, hlevel, haround⟩ := hframes.zoom
  rw [Machine.tryTop, houter]
  refine (hfg hlevel.level (hc.of_eq (by abel) : m.arena.Covers m.read (hl + (ho + spare)))).attach.bind ?_
  rintro ⟨frame', a'⟩ level' ⟨⟨hg, hl', ⟨hlevel', hsame⟩, hc'⟩, hlevel⟩
  exact .ok ⟨⟨_, _, rfl⟩, ⟨hl' + ho, haround hg (.none hlevel') hsame, hc'.of_eq (by abel)⟩,
    level', hlevel, rfl⟩

/-- A node is made of what is to spare. -/
theorem alloc_refines (hs : Stacked (.due + h + spare) pending m b) (htokens : m.read < tokenLimit)
    {cell : Cell} {span : Span} {links : List Nat} {node : Node}
    (hlinks : cell.links? m.arena = some links)
    (hnode : Entry.node? m.arena m.arena.tree? ⟨cell, span⟩ = some node)
    (hcells : h.1 = ↑(links.flatMap m.arena.cells)) :
    Refines (fun out node => Restacked m out.2 ∧ m.arena.Grows out.2.arena ∧
      ∃ h, out.2.arena.Held h out.1 node ∧ Stacked (h + spare) pending out.2 b)
      (m.alloc cell span) (.ok node) := by
  obtain ⟨hs, hframes, hc⟩ := hs
  refine (Arena.alloc_refines htokens hlinks hnode hcells (hc.of_eq (by abel) :
    m.arena.Covers m.read (Holding.due + h + (hs + spare)))).bind_left ?_
  rintro ⟨link, a'⟩ ⟨hg, h', hlink, hc'⟩
  exact .ok ⟨⟨_, _, rfl⟩, hg, h', hlink, hs, hframes.grows hg, hc'.of_eq (by abel)⟩

/-- A tree that is to spare goes to the end of the expression. -/
theorem push_operand {link : Nat} {node : Node} (hs : Stacked (h + spare) none m b)
    (hlink : m.arena.Held h link node) :
    ∃ m', m.mapTop (·.push (.run (.operand link))) = .ok m' ∧ Restacked m m' ∧
      Stacked spare none m' (b.operand node) :=
  hs.mapTop fun hlevel => ⟨_, .none (hlevel.level.operand hlink), ⟨rfl, rfl⟩, le_of_eq (by abel)⟩

/-- An item that is to spare goes on top of the items. -/
theorem push_item {item : Item} {item' : SlotScript.Item} (hs : Stacked (h + spare) none m b)
    (hitem : HeldItem m.arena h item item') (hrun : b.level.run = []) :
    ∃ m', m.mapTop (·.push item) = .ok m' ∧ Restacked m m' ∧
      Stacked spare none m' (b.mapLevel (·.item item')) :=
  hs.mapTop fun hlevel =>
    ⟨_, .none (hlevel.level.item hitem hrun), ⟨rfl, rfl⟩, le_of_eq (by abel)⟩

theorem operand_refines (hs : Stacked (.due + h + spare) none m b) (htokens : m.read < tokenLimit)
    {cell : Cell} {span : Span} {links : List Nat} {node : Node}
    (hlinks : cell.links? m.arena = some links)
    (hnode : Entry.node? m.arena m.arena.tree? ⟨cell, span⟩ = some node)
    (hcells : h.1 = ↑(links.flatMap m.arena.cells)) :
    Refines (fun m' b' => Restacked m m' ∧ Stacked spare none m' b' ∧ b' = b.operand node)
      (m.operand cell span) (.ok (b.operand node)) := by
  refine (hs.alloc_refines htokens hlinks hnode hcells).bind_left ?_
  rintro ⟨link, m'⟩ ⟨⟨a, frames, rfl⟩, -, h', hlink, hs'⟩
  obtain ⟨m'', hm'', ⟨a', frames', rfl⟩, hs''⟩ := hs'.push_operand hlink
  simp only [hm'']
  exact .ok ⟨⟨_, _, rfl⟩, hs'', rfl⟩

/-- A level is opened. -/
theorem enter {kind : FrameKind} {opener : Opener} (hs : Stacked (h + spare) pending m b)
    (hkind : HeldKind m.arena h kind opener) (hpending : pendingOf opener = pending)
    (hwaits : opener.waits = true → b.level.run = []) (span : Span) :
    Stacked spare none (m.enter kind span) (b.push opener span) := by
  obtain ⟨hs, hframes, hc⟩ := hs
  subst hpending
  have hrun : opener.waits = true → (Builder.levelOf b.root b.frames).run = [] := by
    rcases b with ⟨root, _ | ⟨frame, outer⟩, expectation, previous, anonymous⟩ <;> exact hwaits
  exact ⟨0 + (h + hs), .cons hkind (.none (heldLevel_empty m.arena kind span)) hrun hframes,
    hc.of_eq (by abel)⟩

end Stacked

/-- The machine is where the builder is. -/
structure Tracks (spare : Holding) (m : Machine) (b : Builder) : Prop where
  stacked : Stacked spare (pendingIn b.expectation) m b
  preceded : Preceded m b.previous
  anonymous : m.anonymous = b.anonymous
  limit : m.read + m.rest.length < tokenLimit

theorem Tracks.restack {spare spare' : Holding} {m m' : Machine} {b b' : Builder}
    (ht : Tracks spare m b) (hm : Restacked m m')
    (hs : Stacked spare' (pendingIn b'.expectation) m' b') (hprevious : b'.previous = b.previous)
    (hanonymous : b'.anonymous = b.anonymous) : Tracks spare' m' b' := by
  obtain ⟨a, frames, rfl⟩ := hm
  refine ⟨hs, ?_, ht.anonymous.trans hanonymous.symm, ht.limit⟩
  rw [hprevious]
  exact ⟨ht.preceded.current, ht.preceded.header, ht.preceded.call, ht.preceded.headerEnd,
    ht.preceded.callEnd⟩

end SlotScript.Flat
