import LineageA1000.Ion.Covered

/-!
# Clients that take one call at a time

User space can keep the races out. Where the calls into one client do not overlap, and a handle is
freed only by a number that user space owns a reference for, every free has something to give back
and no import meets a second handle, whatever threads do in other clients with the same buffers.
-/

namespace LineageA1000.Ion

open RefCount

variable {Tid : Type*}

/-- Nobody is in the client when a call begins, and a free names a handle that user space owns. -/
def Orderly (s : System Tid) : Event Tid → Prop
  | .alloc _ c _ | .share _ c _ | .importFd _ c _ => ∀ u, (s.pc u).client ≠ some c
  | .free _ c id => (∀ u, (s.pc u).client ≠ some c) ∧
      ∀ h ∈ s.store.idr c id, s.owned h ≠ 0
  | _ => True

instance decidableOrderly [Fintype Tid] (s : System Tid) : ∀ e, Decidable (Orderly s e)
  | .alloc _ c _ | .share _ c _ | .importFd _ c _ =>
      inferInstanceAs (Decidable (∀ u, (s.pc u).client ≠ some c))
  | .free _ c id => inferInstanceAs (Decidable ((∀ u, (s.pc u).client ≠ some c) ∧
      ∀ h ∈ s.store.idr c id, s.owned h ≠ 0))
  | .go _ _ | .release _ | .close _ => .isTrue trivial

/-- The client and the buffer that an import is about to add a handle of. -/
def importing (s : Store) : Pc → Option (ClientId × BufferId)
  | .importMissed c d => some (c, s.dmaBuffer d)
  | .add c h (some _) => some (c, (s.handle h).buffer)
  | _ => none

/-- The handle that a free is about to put. -/
def freeing : Pc → Option HandleId
  | .freeGot _ h | .freeValid _ h => some h
  | _ => none

structure Ordered (s : System Tid) : Prop where
  serial : ∀ t u c, (s.pc t).client = some c → (s.pc u).client = some c → t = u
  frees : ∀ t h, freeing (s.pc t) = some h → s.owned h ≠ 0
  imports : ∀ t c b, importing s.store (s.pc t) = some (c, b) → ¬ Standing s.store c b

theorem Ordered.started : Ordered (started : System Tid) where
  serial _ _ _ hclient := by cases hclient
  frees _ _ hfreeing := by cases hfreeing
  imports _ _ _ himporting := by cases himporting

theorem held_of_freeing {p : Pc} {h : HandleId} (hp : freeing p = some h) : p.held = some h := by
  cases p with
  | freeGot c x | freeValid c x => exact hp
  | _ => cases hp

theorem client_of_importing {s : Store} {p : Pc} {c : ClientId} {b : BufferId}
    (hp : importing s p = some (c, b)) : p.client = some c := by
  cases p with
  | importMissed x d => exact congrArg some (Prod.ext_iff.1 (Option.some.inj hp)).1
  | add x h d =>
      cases d with
      | none => cases hp
      | some d => exact congrArg some (Prod.ext_iff.1 (Option.some.inj hp)).1
  | _ => cases hp

/-! ### Where a step leads -/

structure Follows (p q : Pc) : Prop where
  client : q.client = p.client ∨ q.client = none
  freeing : ∀ h, freeing q = some h → freeing p = some h
  missed : ∀ c d, q = .importMissed c d → p = .importDma c d
  add : ∀ c h d, q = .add c h (some d) → p = .importMissed c d

/-- The thread is not about to free or to import. -/
def Pc.rests : Pc → Bool
  | .freeGot _ _ | .freeValid _ _ | .importMissed _ _ | .add _ _ (some _) => false
  | _ => true

theorem Follows.plain {p q : Pc} (hclient : q.client = p.client ∨ q.client = none)
    (hrests : q.rests = true) : Follows p q where
  client := hclient
  freeing h hh := by
    cases q with
    | freeGot c x | freeValid c x => cases hrests
    | _ => cases hh
  missed c d hq := by
    subst hq
    cases hrests
  add c h d hq := by
    subst hq
    cases hrests

theorem Follows.idle (p : Pc) : Follows p .idle := .plain (.inr rfl) rfl

theorem follows_of_map {α : Type*} {x : Option α} {f : α → Store × Pc} {p : Pc} {r : Store × Pc}
    (hr : x.map f = some r) (hf : ∀ y, Follows p (f y).2) : Follows p r.2 := by
  obtain ⟨y, -, rfl⟩ := Option.map_eq_some_iff.1 hr
  exact hf y

theorem advance_follows {s : Store} {a : Answer} {p : Pc} {r : Store × Pc}
    (hr : advance s a p = some r) : Follows p r.2 := by
  cases p with
  | idle =>
      obtain rfl := Option.some.inj hr
      exact .idle _
  | allocBuffer c b =>
      rw [advance] at hr
      split at hr
      · exact follows_of_map hr fun _ => .idle _
      · exact follows_of_map hr fun _ => .plain (.inl rfl) rfl
  | allocHandle c b h =>
      exact follows_of_map hr fun _ => .plain (.inl rfl) rfl
  | add c h d =>
      rw [advance] at hr
      split at hr
      · obtain rfl := Option.some.inj hr
        exact .plain (.inl rfl) rfl
      · refine follows_of_map hr fun y => ?_
        dsimp only
        split
        · cases d with
          | none =>
              exact .plain (.inl rfl) rfl
          | some d => exact .plain (.inl rfl) rfl
        · exact .plain (.inl rfl) rfl
  | undo c h d =>
      refine follows_of_map hr fun y => ?_
      cases d with
      | none => exact .idle _
      | some d => exact .plain (.inl rfl) rfl
  | hung c h d =>
      obtain rfl := Option.some.inj hr
      exact .plain (.inl rfl) rfl
  | importDma c d =>
      rw [advance] at hr
      split at hr
      · cases hr
      · obtain rfl := Option.some.inj hr
        refine ⟨.inl rfl, fun h hh => ?_, fun c' d' hq => ?_, fun c' h' d' hq => ?_⟩
        · cases hh
        · cases hq
          rfl
        · cases hq
      · exact follows_of_map hr fun _ => .plain (.inl rfl) rfl
  | importMissed c d =>
      rw [advance] at hr
      split at hr
      · obtain rfl := Option.some.inj hr
        exact .plain (.inl rfl) rfl
      · refine follows_of_map hr fun y => ⟨.inl rfl, fun h hh => ?_, fun c' d' hq => ?_,
          fun c' h' d' hq => ?_⟩
        · cases hh
        · cases hq
        · cases hq
          rfl
  | importEnd c d h =>
      obtain rfl := Option.some.inj hr
      cases h with
      | none => exact .idle _
      | some h =>
          exact .plain (.inl rfl) rfl
  | copyOut c h cleanup =>
      rw [advance] at hr
      split at hr
      · split at hr
        · obtain rfl := Option.some.inj hr
          exact .idle _
        · cases hr
      · refine follows_of_map hr fun valid => ?_
        cases valid with
        | true =>
            exact .plain (.inl rfl) rfl
        | false => exact .idle _
  | cleanup c h | putLast c h => exact follows_of_map hr fun _ => .idle _
  | freeGot c h =>
      refine follows_of_map hr fun valid => ?_
      cases valid with
      | true =>
          refine ⟨.inl rfl, fun x hh => hh, fun c' d' hq => ?_, fun c' h' d' hq => ?_⟩
          · cases hq
          · cases hq
      | false => exact .plain (.inl rfl) rfl
  | freeValid c h => exact follows_of_map hr fun _ => .plain (.inl rfl) rfl
  | shareGot c h =>
      rw [advance] at hr
      split at hr
      · cases hr
      · obtain rfl := Option.some.inj hr
        exact .plain (.inl rfl) rfl
      · exact follows_of_map hr fun _ => .plain (.inl rfl) rfl
  | shareBuffer c h b =>
      rw [advance] at hr
      split at hr
      · exact follows_of_map hr fun _ => .plain (.inl rfl) rfl
      · obtain rfl := Option.some.inj hr
        exact .plain (.inl rfl) rfl
  | shareExported c h d =>
      rw [advance] at hr
      split at hr
      · obtain rfl := Option.some.inj hr
        exact .plain (.inl rfl) rfl
      · exact follows_of_map hr fun _ => .plain (.inl rfl) rfl

/-! ### The order is kept -/

variable [Fintype Tid] [DecidableEq Tid] {s : System Tid} {t : Tid}

omit [Fintype Tid] [DecidableEq Tid] in
/-- The ledger changes for a handle that the thread holds, and grows unless the thread frees. -/
theorem ledger_ne_zero {a : Answer} {p : Pc} {h : HandleId} (howned : s.owned h ≠ 0)
    (hfree : ∀ c, p ≠ .freeValid c h) : ledger s.owned a p h ≠ 0 := by
  cases p with
  | copyOut c x cleanup =>
      rw [ledger]
      split
      · by_cases hx : h = x
        · subst hx
          rw [Function.update_self]
          omega
        · rw [Function.update_of_ne hx]
          exact howned
      · exact howned
  | freeValid c x =>
      have hx : h ≠ x := by
        rintro rfl
        exact hfree c rfl
      rw [ledger, Function.update_of_ne hx]
      exact howned
  | _ => exact howned

/-- What another thread is about to import stays out of its client's tree. -/
theorem Moved.not_standing {store : Store} {p : Pc} {owned : HandleId → Nat}
    (hmoved : Moved s t store p owned) (hs : Sound s) {c : ClientId} {b : BufferId}
    (hout : (s.pc t).client ≠ some c) (hnone : ¬ Standing s.store c b) :
    ¬ Standing store c b := by
  rintro ⟨e, he, hbuffer⟩
  rcases hmoved.tree hs he with hold | ⟨-, -, hclient⟩
  · have hlive := ((hs.consistent.tree c e).1 hold).1
    exact hnone ⟨e, hold, (hmoved.names e hlive).2 ▸ hbuffer⟩
  · exact hout hclient

theorem Moved.importing {store : Store} {p : Pc} {owned : HandleId → Nat}
    (hmoved : Moved s t store p owned) (hs : Sound s) {u : Tid} (hu : u ≠ t) :
    importing store (s.pc u) = importing s.store (s.pc u) := by
  cases hp : s.pc u with
  | importMissed c d =>
      have hdma : (s.pc u).heldDma = some d := by rw [hp]; rfl
      have hsame : store.dmaBuffer d = s.store.dmaBuffer d := by
        rcases hmoved.dmaBufs d (hmoved.dma u hu d hdma) with ⟨-, hsame⟩ | ⟨hdead, -⟩
        · exact hsame
        · exact absurd (hs.dma u d hdma) hdead
      simp only [Ion.importing, hsame]
  | add c h d =>
      have hlive : h ∈ s.store.handles.live := hs.held_live (t := u) (by rw [hp]; rfl)
      cases d with
      | none => rfl
      | some d => simp only [Ion.importing, (hmoved.names h hlive).2]
  | _ => rfl

theorem Ordered.moved (ho : Ordered s) (hs : Sound s) {store : Store} {p : Pc}
    {owned : HandleId → Nat} (hmoved : Moved s t store p owned)
    (hclient : ∀ c, p.client = some c →
      (s.pc t).client = some c ∨ ∀ u, (s.pc u).client ≠ some c)
    (hothers : ∀ u, u ≠ t → ∀ h, freeing (s.pc u) = some h → owned h ≠ 0)
    (hfreeing : ∀ h, freeing p = some h → owned h ≠ 0)
    (himporting : ∀ c b, importing store p = some (c, b) → ¬ Standing store c b)
    (halone : ∀ u, u ≠ t → ∀ c, (s.pc u).client = some c → (s.pc t).client ≠ some c) :
    Ordered { s.moved t store p with owned := owned } := by
  have hself : Function.update s.pc t p t = p := Function.update_self ..
  have hother : ∀ u, u ≠ t → Function.update s.pc t p u = s.pc u :=
    fun u hu => Function.update_of_ne hu ..
  have hapart : ∀ u, u ≠ t → ∀ c, (s.pc u).client = some c → p.client ≠ some c := by
    intro u hu c hc hpc
    rcases hclient c hpc with hsame | hnobody
    · exact halone u hu c hc hsame
    · exact hnobody u hc
  constructor
  · intro u v c hu hv
    simp only [System.moved] at hu hv
    by_cases hut : u = t
    · subst hut
      by_contra hne
      rw [hself] at hu
      rw [hother v (Ne.symm hne)] at hv
      exact hapart v (Ne.symm hne) c hv hu
    · rw [hother u hut] at hu
      by_cases hvt : v = t
      · subst hvt
        rw [hself] at hv
        exact absurd hv (hapart u hut c hu)
      · rw [hother v hvt] at hv
        exact ho.serial u v c hu hv
  · intro u h hh
    simp only [System.moved] at hh
    by_cases hu : u = t
    · subst hu
      rw [hself] at hh
      exact hfreeing h hh
    · rw [hother u hu] at hh
      exact hothers u hu h hh
  · intro u c b hb
    simp only [System.moved] at hb
    by_cases hu : u = t
    · subst hu
      rw [hself] at hb
      exact himporting c b hb
    · rw [hother u hu, hmoved.importing hs hu] at hb
      exact hmoved.not_standing hs (halone u hu c (client_of_importing hb)) (ho.imports u c b hb)

/-- The first step of a call into a client where nobody is. -/
theorem Ordered.begins (ho : Ordered s) (hs : Sound s) (hidle : s.pc t = .idle) {store : Store}
    {p : Pc} (hmoved : Moved s t store p s.owned) {c : ClientId}
    (hout : ∀ u, (s.pc u).client ≠ some c) (hclient : p.client = some c ∨ p.client = none)
    (hfreeing : ∀ h, freeing p = some h → s.owned h ≠ 0) (himporting : importing store p = none) :
    Ordered (s.moved t store p) := by
  refine ho.moved hs hmoved (fun c' hc' => ?_) (fun u _ h hh => ho.frees u h hh) hfreeing
    (fun c' b hb => ?_) fun u _ c' _ => ?_
  · rcases hclient with hin | hnone
    · obtain rfl := Option.some.inj (hin.symm.trans hc')
      exact .inr hout
    · rw [hnone] at hc'
      cases hc'
  · rw [himporting] at hb
    cases hb
  · rw [hidle]
    intro hc
    cases hc

theorem handle_of_handleCreate {st st' : Store} {c : ClientId} {b : BufferId} {h : HandleId}
    (hcreate : handleCreate st c b h = some st') : st'.handle h = ⟨c, b, 0⟩ := by
  rw [handleCreate, Option.bind_eq_bind, Option.bind_eq_some_iff] at hcreate
  obtain ⟨st₁, -, hcreate⟩ := hcreate
  rw [Option.bind_eq_some_iff] at hcreate
  obtain ⟨st₂, -, hcreate⟩ := hcreate
  obtain rfl := Option.some.inj hcreate
  exact Function.update_self ..

/-- An import goes on to make a handle where the lookup found none. -/
theorem Sound.imports_after (hs : Sound s) {a : Answer} {r : Store × Pc}
    (hr : Ion.advance s.store a (s.pc t) = some r)
    (hmoved : Moved s t r.1 r.2 (ledger s.owned a (s.pc t))) (ho : Ordered s) {c : ClientId}
    {b : BufferId} (himporting : importing r.1 r.2 = some (c, b)) : ¬ Standing r.1 c b := by
  have hfollows := advance_follows hr
  obtain ⟨st, q⟩ := r
  dsimp only at himporting hfollows hmoved ⊢
  cases q with
  | importMissed x d =>
      obtain ⟨rfl, rfl⟩ := Prod.ext_iff.1 (Option.some.inj himporting)
      have hp := hfollows.missed x d rfl
      rw [hp, Ion.advance, handleLookup, hs.consistent.walkTree, Option.map_some] at hr
      cases hfind : (s.store.tree x).find?
        fun e => (s.store.handle e).buffer = s.store.dmaBuffer d with
      | none =>
          rw [hfind] at hr
          obtain ⟨rfl, -⟩ := Prod.ext_iff.1 (Option.some.inj hr)
          rintro ⟨e, he, hbuffer⟩
          exact absurd (decide_eq_true hbuffer) (List.find?_eq_none.1 hfind e he)
      | some h =>
          rw [hfind] at hr
          obtain ⟨_, -, heq⟩ := Option.map_eq_some_iff.1 hr
          cases (Prod.ext_iff.1 heq).2
  | add x h d =>
      cases d with
      | none => cases himporting
      | some d =>
          obtain ⟨rfl, rfl⟩ := Prod.ext_iff.1 (Option.some.inj himporting)
          have hp := hfollows.add x h d rfl
          have hheld : (s.pc t).held = none := by rw [hp]; rfl
          have hnone := ho.imports t x (s.store.dmaBuffer d) (by rw [hp]; rfl)
          rw [hp, Ion.advance] at hr
          have hbuffer : (st.handle h).buffer = s.store.dmaBuffer d := by
            cases hk : a.kzalloc with
            | none =>
                rw [hk] at hr
                cases (Prod.ext_iff.1 (Option.some.inj hr)).2
            | some y =>
                rw [hk] at hr
                obtain ⟨st', hcreate, heq⟩ := Option.map_eq_some_iff.1 hr
                cases heq
                rw [handle_of_handleCreate hcreate]
          dsimp only
          rw [hbuffer]
          rintro ⟨e, he, heb⟩
          rcases hmoved.tree hs he with hold | ⟨hmine, -⟩
          · have hlive := ((hs.consistent.tree x e).1 hold).1
            exact hnone ⟨e, hold, (hmoved.names e hlive).2 ▸ heb⟩
          · rw [hheld] at hmine
            cases hmine
  | _ => cases himporting

omit [Fintype Tid] [DecidableEq Tid] in
theorem Ordered.fair (ho : Ordered s) {e : Event Tid} : Fair s e := by
  cases e with
  | go t a =>
      cases hp : s.pc t with
      | freeValid c h =>
          simp only [Fair, hp, FairAt]
          exact ho.frees t h (by rw [hp]; rfl)
      | add c h d =>
          cases d with
          | none => simp only [Fair, hp, FairAt]
          | some d =>
              simp only [Fair, hp, FairAt]
              exact .inr (ho.imports t c _ (by rw [hp]; rfl))
      | _ => simp only [Fair, hp, FairAt]
  | _ => trivial

theorem Ordered.step (ho : Ordered s) (hs : Sound s) {e : Event Tid} (hpossible : Possible s e)
    (horderly : Orderly s e) {s' : System Tid} (hs' : step s e = some s') : Ordered s' := by
  cases e with
  | alloc t c b =>
      cases b with
      | none =>
          obtain rfl := Option.some.inj hs'
          exact ho
      | some b =>
          obtain rfl := Option.some.inj hs'
          refine ho.begins hs hpossible.1 (hs.allocates hpossible.1 (hpossible.2 b rfl) c) horderly
            (.inl rfl) (fun h hh => ?_) rfl
          cases hh
  | free t c id =>
      obtain ⟨_, heq, store, p, rfl, hmoved, hp⟩ := hs.enters hpossible c id (.inl rfl)
      obtain rfl := Option.some.inj (heq.symm.trans hs')
      rcases hp with rfl | ⟨h, hidr, rfl⟩
      · refine ho.begins hs hpossible hmoved horderly.1 (.inr rfl) (fun h hh => ?_) rfl
        cases hh
      · refine ho.begins hs hpossible hmoved horderly.1 (.inl rfl) (fun x hx => ?_) rfl
        obtain rfl := Option.some.inj hx
        exact horderly.2 h hidr
  | share t c id =>
      obtain ⟨_, heq, store, p, rfl, hmoved, hp⟩ := hs.enters hpossible c id (.inr rfl)
      obtain rfl := Option.some.inj (heq.symm.trans hs')
      rcases hp with rfl | ⟨h, hidr, rfl⟩
      · refine ho.begins hs hpossible hmoved horderly (.inr rfl) (fun h hh => ?_) rfl
        cases hh
      · refine ho.begins hs hpossible hmoved horderly (.inl rfl) (fun x hx => ?_) rfl
        cases hx
  | importFd t c d =>
      cases d with
      | none =>
          obtain rfl := Option.some.inj hs'
          exact ho
      | some d =>
          obtain rfl := Option.some.inj hs'
          obtain ⟨hidle, hd⟩ := hpossible
          refine ho.begins hs hidle (hs.finds hidle (hd d rfl).1 (hd d rfl).2 c) horderly (.inl rfl)
            (fun h hh => ?_) rfl
          cases hh
  | go t a =>
      obtain ⟨r, hadvance, hmoved⟩ := hs.advance hpossible ho.fair
      rw [Ion.step, hadvance] at hs'
      obtain rfl := Option.some.inj hs'
      have hfollows := advance_follows hadvance
      have hledger : ∀ h, s.owned h ≠ 0 → (∀ c, s.pc t ≠ .freeValid c h) →
          ledger s.owned a (s.pc t) h ≠ 0 := fun h => ledger_ne_zero
      refine ho.moved hs hmoved (fun c hc => ?_) (fun u hu h hh => ?_) (fun h hh => ?_)
        (fun c b hb => hs.imports_after hadvance hmoved ho hb) fun u hu c hc hct => ?_
      · rcases hfollows.client with hsame | hnone
        · exact .inl (hsame ▸ hc)
        · rw [hnone] at hc
          cases hc
      · refine hledger h (ho.frees u h hh) fun c hp => hu ?_
        have hheld : (s.pc t).held = some h := by rw [hp]; rfl
        have hclient := (hs.placed t h hheld).1
        exact ho.serial u t _ (hs.placed u h (held_of_freeing hh)).1 hclient
      · refine hledger h (ho.frees t h (hfollows.freeing h hh)) fun c hp => ?_
        rw [hp, advance] at hadvance
        obtain ⟨_, -, rfl⟩ := Option.map_eq_some_iff.1 hadvance
        cases hh
      · exact hu (ho.serial u t c hc hct)
  | release d =>
      obtain ⟨store, hrelease, -, hhandle, hdmaBufs, hdmaBuffer, hhandles, htree⟩ :
          ∃ store, dmaBufRelease s.store d = some store ∧ Consistent store _ _ ∧ _ :=
        hs.consistent.dmaBufRelease hpossible.1
      rw [Ion.step, hrelease] at hs'
      obtain rfl := Option.some.inj hs'
      refine ⟨ho.serial, ho.frees, fun t c b hb => ?_⟩
      have hsame : importing store (s.pc t) = importing s.store (s.pc t) := by
        simp only [importing, hhandle, hdmaBuffer]
      rw [hsame] at hb
      simp only [Standing, htree, hhandle]
      exact ho.imports t c b hb
  | close c =>
      obtain ⟨store, hdestroy, -, hnames, hlive, htree⟩ := hs.consistent.clientDestroy c
      rw [Ion.step, hdestroy] at hs'
      obtain rfl := Option.some.inj hs'
      refine ⟨ho.serial, fun t h hh => ?_, fun t c' b hb => ?_⟩
      · dsimp only
        rw [if_neg]
        · exact ho.frees t h hh
        · intro hmem
          have hclient := ((hs.consistent.tree c h).1 hmem).2.1
          exact hpossible t (hclient ▸ (hs.placed t h (held_of_freeing hh)).1)
      · have hsame : importing store (s.pc t) = importing s.store (s.pc t) := by
          simp only [importing, hnames.handle, hnames.dmaBuffer]
        rw [hsame] at hb
        rintro ⟨e, he, hbuffer⟩
        simp only [hnames.handle] at hbuffer
        exact ho.imports t c' b hb ⟨e, ((htree c' e).1 he).1, hbuffer⟩

end LineageA1000.Ion
