import LineageA1000.Ion.Sound

/-!
# Races between calls

A thread frees a handle by its number while another is at work with it, or two threads import one
buffer into one client. Then a count can drop below the references of the calls in flight, and
`ion_handle_add` can meet a handle of its buffer. Both happen exactly where a free gives back what
user space does not own and where an import adds its handle after another has: everywhere else the
counts cover all references, nothing that was freed is used, and no `BUG_ON` fires.
-/

namespace LineageA1000.Ion

open RefCount

variable {Tid : Type*} [Fintype Tid] {s : System Tid} {t : Tid} {a : Answer}

/-- A handle that a thread has looked up stays valid while the thread holds it. -/
theorem Sound.validates (hs : Sound s) {c : ClientId} {h : HandleId}
    (hheld : (s.pc t).held = some h) (hclient : (s.pc t).client = some c)
    (hadding : (s.pc t).adding = false) :
    (s.store.handle h).client = c ∧ handleValidate s.store c h = some true := by
  obtain ⟨hplaced, hid⟩ := hs.placed t h hheld
  have hc : (s.store.handle h).client = c := Option.some.inj (hplaced.symm.trans hclient)
  have hne : (s.store.handle h).id ≠ 0 := by
    intro hzero
    rw [hid.1 hzero] at hadding
    cases hadding
  have hlive := hs.held_live hheld
  have hidr : s.store.idr c (s.store.handle h).id = some h :=
    (hs.consistent.idr _ _ _).2 ⟨hlive, hc, rfl, hne⟩
  refine ⟨hc, ?_⟩
  rw [handleValidate, if_pos hlive, hidr, decide_eq_true rfl]

theorem Sound.freeCheck (hs : Sound s) {c : ClientId} {h : HandleId}
    (hheld : (s.pc t).held = some h) (hclient : (s.pc t).client = some c)
    (hadding : (s.pc t).adding = false) : freeCheck s.store c h = some true := by
  obtain ⟨hc, hvalid⟩ := hs.validates hheld hclient hadding
  rw [Ion.freeCheck, if_pos hc, hvalid]

/-- The buffer of an allocation is in no tree. -/
theorem Sound.not_standing (hs : Sound s) {c : ClientId} {h : HandleId}
    (hp : s.pc t = .add c h none) : ¬ Standing s.store c (s.store.handle h).buffer := by
  rintro ⟨e, he, hbuffer⟩
  have hheld : (s.pc t).held = some h := by rw [hp]; rfl
  have hprivate := hs.fresh t (s.store.handle h).buffer (by rw [hp]; rfl)
  obtain ⟨hlive, -, hid⟩ := (hs.consistent.tree c e).1 he
  have hmine := (hprivate.handles e hlive).1 hbuffer
  obtain rfl : h = e := Option.some.inj (hheld.symm.trans hmine)
  exact hid ((hs.placed t h hheld).2.2 (by rw [hp]; rfl))

variable [DecidableEq Tid]

/-- A step of a call goes through, and the thread moves. -/
theorem Sound.advance (hs : Sound s) (hpossible : Possible s (.go t a)) (hfair : Fair s (.go t a)) :
    ∃ r, advance s.store a (s.pc t) = some r ∧ Moved s t r.1 r.2 (ledger s.owned a (s.pc t)) := by
  obtain ⟨hkzalloc, hidr, hdmaBuf⟩ := hpossible
  have hmap : ∀ {x : Option Store} {p owned}, (∃ store, x = some store ∧ Moved s t store p owned) →
      ∃ r, (x.map fun s => (s, p)) = some r ∧ Moved s t r.1 r.2 owned := by
    rintro x p owned ⟨store, rfl, hmoved⟩
    exact ⟨_, rfl, hmoved⟩
  cases hp : s.pc t with
  | idle =>
      refine ⟨_, rfl, hs.goes ?_ (.inl rfl) ?_ rfl ?_ rfl rfl rfl⟩
      · rw [hp]
      · rw [hp]; rfl
      · intro d hd
        cases hd
  | allocBuffer c b =>
      have hheld : (s.pc t).held = none := by rw [hp]; rfl
      have hbuffer : (s.pc t).heldBuffer = some b := by rw [hp]; rfl
      cases hk : a.kzalloc with
      | none =>
          simp only [Ion.advance, hk]
          refine hmap (hs.putsBuffer hbuffer rfl hheld.symm (.inl rfl) rfl rfl ?_ rfl)
          intro x hx
          cases hx
      | some h =>
          simp only [Ion.advance, hk]
          refine hmap (hs.creates (.inl hbuffer) (hkzalloc h hk) rfl hheld rfl rfl hbuffer.symm ?_
            rfl ?_ ?_ rfl)
          · rw [hp]; rfl
          · intro x hx
            rw [hp]
            exact ⟨hx, hx, (Option.some.inj hx).symm⟩
          · intro c x heq
            cases heq
  | allocHandle c b h =>
      have hheld : (s.pc t).held = some h := by rw [hp]; rfl
      have hprivate := hs.fresh t b (by rw [hp]; rfl)
      have hbuffer : (s.store.handle h).buffer = b :=
        (hprivate.handles h (hs.held_live hheld)).2 hheld
      refine hmap (hs.putsBuffer ?_ rfl hheld.symm (.inr ?_) rfl rfl ?_ rfl)
      · rw [hp]; rfl
      · rw [hp]
        exact ⟨rfl, rfl⟩
      · intro x hx
        rw [hp, ← hbuffer]
        exact hx
  | add c h d =>
      cases hid : a.idrAlloc with
      | none =>
          simp only [Ion.advance, hid]
          refine ⟨_, rfl, hs.goes ?_ (.inr ?_) ?_ rfl ?_ rfl rfl rfl⟩
          · rw [hp]; rfl
          · rw [hp]
            exact ⟨rfl, rfl⟩
          · rw [hp]; rfl
          · intro e he
            rw [hp]
            exact he
      | some id =>
          obtain ⟨hne, hfree⟩ := hidr id hid
          have hnone : ¬ Standing s.store c (s.store.handle h).buffer := by
            cases d with
            | none => exact hs.not_standing hp
            | some d =>
                simp only [Fair, hp, FairAt, hid] at hfair
                exact hfair.resolve_left (Option.some_ne_none id)
          obtain ⟨store, hadd, hmoved⟩ := hs.adds hp hne (hfree c (by rw [hp]; rfl)) hnone
          simp only [Ion.advance, hid, hadd]
          exact ⟨_, rfl, hmoved⟩
  | undo c h d =>
      refine hmap (hs.puts ?_ ?_ ?_ ?_ ?_ ?_ ?_ ?_)
      · rw [hp]; rfl
      · rw [hp]; rfl
      · cases d <;> rfl
      · cases d <;> rfl
      · intro e he
        rw [hp]
        cases d with
        | none => cases he
        | some d => exact he
      · cases d <;> rfl
      · cases d <;> rfl
      · cases d <;> rfl
  | hung c h d =>
      have hrunning := hs.running t
      rw [hp] at hrunning
      cases hrunning
  | importDma c d =>
      have hheld : (s.pc t).held = none := by rw [hp]; rfl
      have hbuffer : (s.pc t).heldBuffer = none := by rw [hp]; rfl
      have hdma : ∀ e, some d = some e → (s.pc t).heldDma = some e := by
        intro e he
        rw [hp]
        exact he
      have hlookup : handleLookup s.store c (s.store.dmaBuffer d) = some ((s.store.tree c).find?
          fun e => (s.store.handle e).buffer = s.store.dmaBuffer d) := by
        rw [handleLookup, hs.consistent.walkTree, Option.map_some]
      cases hfind : (s.store.tree c).find?
        fun e => (s.store.handle e).buffer = s.store.dmaBuffer d with
      | none =>
          simp only [Ion.advance, hlookup, hfind]
          exact ⟨_, rfl, hs.goes hheld.symm (.inl rfl) hbuffer rfl hdma rfl rfl rfl⟩
      | some h =>
          obtain ⟨hlive, hclient, hid⟩ :=
            (hs.consistent.tree c h).1 (List.mem_of_find?_eq_some hfind)
          simp only [Ion.advance, hlookup, hfind]
          exact hmap (hs.gets hlive hid (congrArg some hclient.symm) hheld rfl rfl hbuffer rfl hdma
            rfl rfl rfl)
  | importMissed c d =>
      have hheld : (s.pc t).held = none := by rw [hp]; rfl
      have hbuffer : (s.pc t).heldBuffer = none := by rw [hp]; rfl
      have hdma : (s.pc t).heldDma = some d := by rw [hp]; rfl
      cases hk : a.kzalloc with
      | none =>
          simp only [Ion.advance, hk]
          exact ⟨_, rfl, hs.goes hheld.symm (.inl rfl) hbuffer rfl (fun e he => hdma.trans he) rfl
            rfl rfl⟩
      | some h =>
          simp only [Ion.advance, hk]
          refine hmap (hs.creates (.inr (.inl ⟨d, hdma, rfl⟩)) (hkzalloc h hk) rfl hheld rfl rfl
            hbuffer.symm hdma.symm rfl ?_ ?_ rfl)
          · intro x hx
            cases hx
          · intro c x heq
            cases heq
  | importEnd c d h =>
      have hheld : (s.pc t).held = h := by rw [hp]; rfl
      have hbuffer : (s.pc t).heldBuffer = none := by rw [hp]; rfl
      cases h with
      | none =>
          refine ⟨_, rfl, hs.goes hheld.symm (.inl rfl) hbuffer rfl ?_ rfl rfl rfl⟩
          intro e he
          cases he
      | some h =>
          refine ⟨_, rfl, hs.goes hheld.symm (.inr ?_) hbuffer rfl ?_ rfl rfl rfl⟩
          · rw [hp]
            exact ⟨rfl, rfl⟩
          · intro e he
            cases he
  | copyOut c h cleanup =>
      have hheld : (s.pc t).held = some h := by rw [hp]; rfl
      by_cases hgiven : a.copied ∨ cleanup = false
      · simp only [Ion.advance, ledger, if_pos hgiven, if_pos (hs.held_live hheld)]
        exact ⟨_, rfl, hs.gives hp⟩
      · have hcheck : Ion.freeCheck s.store c h = some true :=
          hs.freeCheck hheld (by rw [hp]; rfl) (by rw [hp]; rfl)
        simp only [Ion.advance, ledger, if_neg hgiven, hcheck]
        refine ⟨_, rfl, hs.goes hheld.symm (.inr ?_) ?_ rfl ?_ rfl rfl rfl⟩
        · rw [hp]
          exact ⟨rfl, rfl⟩
        · rw [hp]; rfl
        · intro e he
          cases he
  | cleanup c h | putLast c h =>
      refine hmap (hs.puts ?_ ?_ rfl rfl ?_ rfl rfl rfl)
      · rw [hp]; rfl
      · rw [hp]; rfl
      · intro e he
        cases he
  | freeGot c h =>
      have hheld : (s.pc t).held = some h := by rw [hp]; rfl
      have hcheck : Ion.freeCheck s.store c h = some true :=
        hs.freeCheck hheld (by rw [hp]; rfl) (by rw [hp]; rfl)
      simp only [Ion.advance, hcheck]
      refine ⟨_, rfl, hs.goes hheld.symm (.inr ?_) ?_ rfl ?_ rfl rfl rfl⟩
      · rw [hp]
        exact ⟨rfl, rfl⟩
      · rw [hp]; rfl
      · intro e he
        cases he
  | freeValid c h =>
      simp only [Fair, hp, FairAt] at hfair
      exact hmap (hs.frees hp hfair)
  | shareGot c h =>
      have hvalid : handleValidate s.store c h = some true :=
        (hs.validates (by rw [hp]; rfl) (by rw [hp]; rfl) (by rw [hp]; rfl)).2
      simp only [Ion.advance, hvalid]
      exact hmap (hs.shares hp)
  | shareBuffer c h b =>
      cases hd : a.dmaBuf with
      | none =>
          simp only [Ion.advance, hd]
          refine hmap (hs.putsBuffer ?_ rfl ?_ (.inr ?_) rfl rfl ?_ rfl)
          · rw [hp]; rfl
          · rw [hp]; rfl
          · rw [hp]
            exact ⟨rfl, rfl⟩
          · intro x hx
            cases hx
      | some d =>
          simp only [Ion.advance, hd]
          exact ⟨_, rfl, hs.exports hp (hdmaBuf d hd)⟩
  | shareExported c h d =>
      cases hfd : a.fd with
      | true =>
          simp only [Ion.advance, hfd, if_true]
          refine ⟨_, rfl, hs.goes ?_ (.inr ?_) ?_ rfl ?_ rfl rfl rfl⟩
          · rw [hp]; rfl
          · rw [hp]
            exact ⟨rfl, rfl⟩
          · rw [hp]; rfl
          · intro e he
            cases he
      | false =>
          simp only [Ion.advance, hfd, Bool.false_eq_true, if_false]
          exact hmap (hs.unexports hp)

/-! ### Events -/

omit [DecidableEq Tid] in
theorem Sound.started : Sound (started : System Tid) where
  consistent := by
    refine consistent_probed.congr (fun x => ?_) fun x => ?_
    · simp [Ion.started, handleRefs, Pc.holds, Pc.held]
    · simp [Ion.started, bufferRefs, Pc.holdsBuffer, Pc.heldBuffer]
  owned _ hne := absurd rfl hne
  placed _ _ hheld := by cases hheld
  alone _ _ _ hadding := by cases hadding
  dma _ _ hheld := by cases hheld
  exporting _ _ _ hexporting := by cases hexporting
  fresh _ _ hnew := by cases hnew
  running _ := rfl

/-- A call that begins with the number of a handle. -/
theorem Sound.enters (hs : Sound s) (hidle : s.pc t = .idle) (c : ClientId) (id : Nat)
    {p : HandleId → Pc} (hp : p = .freeGot c ∨ p = .shareGot c) :
    ∃ s', enter s t c id p = some s' ∧ ∃ store q, s' = s.moved t store q ∧
      Moved s t store q s.owned ∧ (q = .idle ∨ ∃ h ∈ s.store.idr c id, q = p h) := by
  have hheld : (s.pc t).held = none := by rw [hidle]; rfl
  have hbuffer : (s.pc t).heldBuffer = none := by rw [hidle]; rfl
  have hnever : ∀ e, (none : Option DmaBufId) = some e → (s.pc t).heldDma = some e := by
    intro e he
    cases he
  cases hidr : s.store.idr c id with
  | none =>
      refine ⟨_, by simp only [enter, handleGetById, hidr]; rfl, _, _, rfl, ?_, .inl rfl⟩
      exact hs.goes hheld.symm (.inl rfl) hbuffer rfl hnever rfl rfl rfl
  | some h =>
      obtain ⟨hlive, hclient, hid, hne⟩ := (hs.consistent.idr c id h).1 hidr
      have hnumber : (s.store.handle h).id ≠ 0 := hid.symm ▸ hne
      have hc : some c = some (s.store.handle h).client := congrArg some hclient.symm
      obtain ⟨store, hget, hmoved⟩ : ∃ store, handleGet s.store h = some store ∧
          Moved s t store (p h) s.owned := by
        rcases hp with rfl | rfl
        · exact hs.gets hlive hnumber hc hheld rfl rfl hbuffer rfl hnever rfl rfl rfl
        · exact hs.gets hlive hnumber hc hheld rfl rfl hbuffer rfl hnever rfl rfl rfl
      exact ⟨_, by simp only [enter, handleGetById, hidr, hget]; rfl, _, _, rfl, hmoved,
        .inr ⟨h, rfl, rfl⟩⟩

/-- A file descriptor names a dma-buf that stays while the thread is at work with it. -/
theorem Sound.finds (hs : Sound s) (hidle : s.pc t = .idle) {d : DmaBufId}
    (hd : d ∈ s.store.dmaBufs) (hfd : ∀ u, (s.pc u).exporting ≠ some d) (c : ClientId) :
    Moved s t s.store (.importDma c d) s.owned := by
  refine hs.quiet (hs.consistent.congr (handleRefs_keep ?_) (bufferRefs_keep ?_)) (.refl _)
    subset_rfl hs.owned (fun x hx => ?_) (fun b hb => ?_) (fun e he => ?_) rfl (fun b hb => ?_) rfl
  · rw [hidle]; rfl
  · rw [hidle]; rfl
  · cases hx
  · cases hb
  · obtain rfl : d = e := Option.some.inj he
    exact .inr ⟨hd, hfd⟩
  · cases hb

omit [DecidableEq Tid] in
theorem Sound.releases (hs : Sound s) {d : DmaBufId} (hd : d ∈ s.store.dmaBufs)
    (hunused : ∀ t, (s.pc t).heldDma ≠ some d) :
    ∃ store, dmaBufRelease s.store d = some store ∧ Sound { s with store := store } := by
  obtain ⟨store, hrelease, hcons, hhandle, hdmaBufs, hdmaBuffer, hhandles, -⟩ :=
    hs.consistent.dmaBufRelease hd
  refine ⟨store, hrelease, ?_⟩
  constructor
  · exact hcons
  · simp only [hhandle]
    exact hs.owned
  · simp only [hhandle]
    exact hs.placed
  · exact hs.alone
  · intro t e he
    simp only [hdmaBufs, Finset.mem_erase]
    refine ⟨?_, hs.dma t e he⟩
    rintro rfl
    exact hunused t he
  · exact hs.exporting
  · intro t b hb
    rw [newBuffer_congr (s := s.store) fun x _ => by simp only [hhandle]] at hb
    have hprivate := hs.fresh t b hb
    constructor
    · simp only [hdmaBufs, hdmaBuffer]
      exact fun e he => hprivate.dmaBufs e (Finset.mem_of_mem_erase he)
    · simp only [hhandles, hhandle]
      exact hprivate.handles
    · exact hprivate.holders
  · exact hs.running

omit [DecidableEq Tid] in
theorem Sound.closes (hs : Sound s) {c : ClientId} (hout : ∀ t, (s.pc t).client ≠ some c) :
    ∃ store, clientDestroy s.store c = some store ∧ Sound { s with
      store := store
      owned := fun h => if h ∈ s.store.tree c then 0 else s.owned h } := by
  obtain ⟨store, hdestroy, hcons, hnames, hlive, -⟩ := hs.consistent.clientDestroy c
  have hunheld : ∀ t, ∀ h ∈ s.store.tree c, (s.pc t).held ≠ some h := by
    intro t h hh hheld
    have hclient := ((hs.consistent.tree c h).1 hh).2.1
    exact hout t (hclient ▸ (hs.placed t h hheld).1)
  refine ⟨store, hdestroy, ?_⟩
  constructor
  · refine hcons.congr (fun h => ?_) fun _ => rfl
    simp only [handleRefs]
    by_cases hh : h ∈ s.store.tree c
    · have hzero : ∑ t, (s.pc t).holds h = 0 := by
        apply Finset.sum_eq_zero
        intro t _
        by_contra hne
        exact hunheld t h hh (Pc.holds_ne_zero.1 hne)
      rw [if_pos hh, if_pos hh, hzero]
    · rw [if_neg hh, if_neg hh]
  · intro h hh
    simp only [hnames.handle]
    apply hs.owned h
    intro hzero
    simp only [hzero, ite_self] at hh
    exact hh rfl
  · simp only [hnames.handle]
    exact hs.placed
  · exact hs.alone
  · simp only [hnames.dmaBufs]
    exact hs.dma
  · exact hs.exporting
  · intro t b hb
    rw [newBuffer_congr (s := s.store) fun x _ => by simp only [hnames.handle]] at hb
    have hprivate := hs.fresh t b hb
    constructor
    · simp only [hnames.dmaBufs, hnames.dmaBuffer]
      exact hprivate.dmaBufs
    · simp only [hnames.handle]
      exact fun h hh => hprivate.handles h (hlive hh)
    · exact hprivate.holders
  · exact hs.running

/-- Every event that may happen goes through, when frees and imports are fair. -/
theorem Sound.step (hs : Sound s) {e : Event Tid} (hpossible : Possible s e) (hfair : Fair s e) :
    ∃ s', step s e = some s' ∧ Sound s' := by
  cases e with
  | alloc t c b =>
      cases b with
      | none => exact ⟨s, rfl, hs⟩
      | some b => exact ⟨_, rfl, (hs.allocates hpossible.1 (hpossible.2 b rfl) c).sound hs⟩
  | free t c id =>
      obtain ⟨_, hs', store, p, rfl, hmoved, -⟩ := hs.enters hpossible c id (.inl rfl)
      exact ⟨_, hs', hmoved.sound hs⟩
  | share t c id =>
      obtain ⟨_, hs', store, p, rfl, hmoved, -⟩ := hs.enters hpossible c id (.inr rfl)
      exact ⟨_, hs', hmoved.sound hs⟩
  | importFd t c d =>
      cases d with
      | none => exact ⟨s, rfl, hs⟩
      | some d =>
          obtain ⟨hidle, hd⟩ := hpossible
          exact ⟨_, rfl, (hs.finds hidle (hd d rfl).1 (hd d rfl).2 c).sound hs⟩
  | go t a =>
      obtain ⟨r, hadvance, hmoved⟩ := hs.advance hpossible hfair
      exact ⟨_, by rw [Ion.step, hadvance]; rfl, hmoved.sound hs⟩
  | release d =>
      obtain ⟨store, hrelease, hs'⟩ := hs.releases hpossible.1 hpossible.2
      exact ⟨_, by rw [Ion.step, hrelease]; rfl, hs'⟩
  | close c =>
      obtain ⟨store, hdestroy, hs'⟩ := hs.closes hpossible
      exact ⟨_, by rw [Ion.step, hdestroy]; rfl, hs'⟩

omit [DecidableEq Tid] in
theorem Sound.covered (hs : Sound s) : Covered s := by
  refine ⟨fun h => ?_, hs.running⟩
  rw [hs.consistent.handles.count, handleRefs]
  omega

/-- A free that has nothing to give back takes the reference of a call in flight, and an import that
meets another handle of its buffer never ends. -/
theorem Sound.fair_of_covered (hs : Sound s) {e : Event Tid} (hpossible : Possible s e)
    (hcovered : Covered (next s e)) : Fair s e := by
  cases e with
  | go t a =>
      cases hp : s.pc t with
      | freeValid c h =>
          simp only [Fair, hp, FairAt]
          intro hnone
          have hheld : (s.pc t).held = some h := by rw [hp]; rfl
          have hle : (s.pc t).holds h ≤ ∑ u, (s.pc u).holds h :=
            share_le_sum (fun p : Pc => p.holds h) s.pc t
          rw [Pc.holds_eq_one hheld] at hle
          have hrefs : handleRefs s.owned s.pc h = ∑ u, (s.pc u).holds h := by
            rw [handleRefs, hnone, Nat.zero_add]
          obtain ⟨store, hput, hcons, -⟩ := hs.consistent.handlePut (h := h)
            (fun x => by
              by_cases hx : x = h
              · subst hx
                rw [single_self]
                exact Nat.sub_add_cancel (hrefs ▸ hle)
              · rw [single_of_ne hx, Nat.sub_zero, Nat.add_zero] :
              ∀ x, (handleRefs s.owned s.pc x - single h x) + single h x =
                handleRefs s.owned s.pc x)
          have hnext : next s (.go t a) = { s.moved t store (.putLast c h) with
              owned := Function.update s.owned h (s.owned h - 1) } := by
            rw [next, Ion.step, hp, Ion.advance, hput]
            rfl
          have hless := hcovered.1 h
          have hsum := sum_update (fun p : Pc => p.holds h) s.pc t (.putLast c h)
          have hlast : (Pc.putLast c h).holds h = 1 := Pc.holds_eq_one rfl
          rw [hnext] at hless
          simp only [System.moved, hcons.handles.count, single_self] at hless
          rw [Pc.holds_eq_one hheld, hlast] at hsum
          omega
      | add c h d =>
          cases d with
          | none =>
              simp only [Fair, hp, FairAt]
          | some d =>
              simp only [Fair, hp, FairAt]
              by_contra hboth
              obtain ⟨hsome, hstanding⟩ := not_or.1 hboth
              obtain ⟨id, hid⟩ := Option.ne_none_iff_exists'.1 hsome
              have hhung := hcovered.2 t
              simp only [next, Ion.step, hp, Ion.advance, hid, handleAdd, hs.consistent.walkTree,
                if_pos (not_not.1 hstanding), Option.bind_eq_bind, Option.bind_some,
                Option.map_some, Option.getD_some, System.moved, Function.update_self] at hhung
              cases hhung
      | _ => simp only [Fair, hp, FairAt]
  | _ => trivial

/-- The kernel has nothing to answer but that user space was reached. -/
def plain : Answer := ⟨none, none, none, true, true⟩

/-- One thread allocates a buffer of client 0, and its handle gets the number 1. -/
def allocation : List (Event Bool) :=
  [.alloc true 0 (some 0), .go true { plain with kzalloc := some 0 }, .go true plain,
    .go true { plain with idrAlloc := some 1 }, .go true plain]

/-- Two threads free the handle, which user space owns once. -/
def doubleFree : List (Event Bool) :=
  allocation ++ [.free true 0 1, .free false 0 1, .go true plain, .go false plain, .go true plain,
    .go false plain, .go true plain, .go false plain]

-- The last step of the race uses the freed handle.
example : step (Run.final next started doubleFree.dropLast) (.go false plain) = none := by
  decide

/-- What lives is what somebody refers to, and the counts say how many do. -/
structure Exact (s : System Tid) : Prop where
  handles : ∀ h, h ∈ s.store.handles.live ↔ s.owned h ≠ 0 ∨ ∃ t, (s.pc t).held = some h
  buffers : ∀ b, b ∈ s.store.buffers.live ↔
    (∃ h ∈ s.store.handles.live, (s.store.handle h).buffer = b) ∨
      (∃ d ∈ s.store.dmaBufs, s.store.dmaBuffer d = b) ∨ ∃ t, (s.pc t).heldBuffer = some b
  handleCount : ∀ b, s.store.handleCount b = handlesOf s.store b

omit [DecidableEq Tid] in
theorem Sound.exact (hs : Sound s) : Exact s := by
  constructor
  · intro h
    constructor
    · intro hlive
      by_contra hnobody
      obtain ⟨hnone, hunheld⟩ := not_or.1 hnobody
      have hpos := hs.consistent.handles.mem_iff.1 hlive
      rw [handleRefs, not_not.1 hnone, Nat.zero_add] at hpos
      obtain ⟨t, -, ht⟩ := Finset.exists_ne_zero_of_sum_ne_zero hpos
      exact hunheld ⟨t, Pc.holds_ne_zero.1 ht⟩
    · rintro (howned | ⟨t, ht⟩)
      · exact hs.owned_live howned
      · exact hs.held_live ht
  · intro b
    constructor
    · intro hlive
      by_contra hnobody
      obtain ⟨hhandles, hrest⟩ := not_or.1 hnobody
      obtain ⟨hdmaBufs, hunheld⟩ := not_or.1 hrest
      have hpos := hs.consistent.buffers.mem_iff.1 hlive
      have hzero : handlesOf s.store b = 0 := by
        refine Finset.card_eq_zero.2 (Finset.filter_eq_empty_iff.2 fun h hh hb => ?_)
        exact hhandles ⟨h, hh, hb⟩
      have hzero' : dmaBufsOf s.store b = 0 := by
        refine Finset.card_eq_zero.2 (Finset.filter_eq_empty_iff.2 fun d hd hb => ?_)
        exact hdmaBufs ⟨d, hd, hb⟩
      rw [hzero, hzero', Nat.zero_add, bufferRefs] at hpos
      obtain ⟨t, -, ht⟩ := Finset.exists_ne_zero_of_sum_ne_zero hpos
      exact hunheld ⟨t, Pc.holdsBuffer_ne_zero.1 ht⟩
    · rintro (⟨h, hh, rfl⟩ | ⟨d, hd, rfl⟩ | ⟨t, ht⟩)
      · exact hs.consistent.buffer_live hh
      · exact hs.consistent.dmaBuffer_live hd
      · exact hs.heldBuffer_live ht
  · exact hs.consistent.handleCount

theorem sound_always {events : List (Event Tid)}
    (hevents : Run.EachStep next (fun s e => Possible s e ∧ Fair s e) started events) :
    Run.Always next Sound started events := by
  refine Run.always_of_eachStep (fun s e hs he => ?_) .started hevents
  obtain ⟨s', hs', hsound⟩ := hs.step he.1 he.2
  rw [next, hs', Option.getD_some]
  exact hsound

/-- The buffer is shared with client 1, which keeps it after client 0 has freed its handle. -/
def sharing : List (Event Bool) :=
  allocation ++ [.share true 0 1, .go true plain, .go true { plain with dmaBuf := some 0 },
    .go true plain, .go true plain, .importFd false 1 (some 0), .go false plain,
    .go false { plain with kzalloc := some 1 }, .go false { plain with idrAlloc := some 1 },
    .go false plain, .go false plain, .free true 0 1, .go true plain, .go true plain,
    .go true plain, .release 0, .close 1]

end LineageA1000.Ion
