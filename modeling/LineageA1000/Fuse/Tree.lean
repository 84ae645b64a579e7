import LineageA1000.Fuse.Refcount
import Mathlib.Logic.Relation

/-!
# The node graph as a tree

Between its two critical sections a rename holds no lock, and what it resolved in the first may have
moved by the second. The tree survives every interleaving in which no rename then finds its new
parent in the subtree of its child; where one does, the child and its new parent become a loop of
their own, and the next walk down it does not end.
-/

namespace LineageA1000.Fuse

/-- `a` is `n` or on its parent chain. -/
def Above (g : Graph) : NodeId → NodeId → Prop :=
  Relation.ReflTransGen fun c p => parentOf g c = some p

def Acyclic (g : Graph) : Prop := ∀ n p, parentOf g n = some p → ¬ Above g p n

def Rooted (g : Graph) : Prop := ∀ n, g n ≠ none → Above g n rootId

variable {g g' : Graph} {refs : NodeId → Nat} {kids : NodeId → List NodeId} {n p c : NodeId}
  {node pnode : Node}

theorem Above.mono (h : Above g n p)
    (hsub : ∀ m q, parentOf g m = some q → parentOf g' m = some q) :
    Above g' n p := Relation.ReflTransGen.mono hsub n p h

theorem Acyclic.mono (h : Acyclic g)
    (hsub : ∀ m q, parentOf g' m = some q → parentOf g m = some q) :
    Acyclic g' := fun n p hparent habove => h n p (hsub n p hparent) (habove.mono hsub)

/-- A chain of parents that ends at a node without one never comes back to where it was. -/
theorem Rooted.acyclic (h : Rooted g) (hroot : parentOf g rootId = none) : Acyclic g := by
  have hchain : ∀ n, Above g n rootId → ∀ p, parentOf g n = some p → ¬ Above g p n := by
    intro n hn
    induction hn using Relation.ReflTransGen.head_induction_on with
    | refl =>
        intro p hp
        rw [hroot] at hp
        cases hp
    | @head a b hstep _ ih =>
        intro p hp hloop
        obtain rfl : b = p := Option.some.inj (hstep.symm.trans hp)
        -- the loop through `a` is one through its parent as well
        rcases Relation.ReflTransGen.cases_head hloop with rfl | ⟨q, hq, hrest⟩
        · exact ih _ hp Relation.ReflTransGen.refl
        · exact ih q hq (hrest.tail hp)
  intro n p hp
  refine hchain n (h n ?_) p hp
  intro hn
  rw [parentOf, hn] at hp
  cases hp

/-! ### What keeps the tree -/

theorem Rooted.prune (h : Rooted g) (hprunes : Prunes g g')
    (hlive : ∀ n p, parentOf g' n = some p → g' p ≠ none) : Rooted g' := by
  intro n hn
  have habove := h n (hprunes n hn).1
  induction habove using Relation.ReflTransGen.head_induction_on with
  | refl => exact Relation.ReflTransGen.refl
  | @head a b hstep _ ih =>
      have hparent : parentOf g' a = some b := (hprunes a hn).2.trans hstep
      exact (ih (hlive a b hparent)).head hparent

/-- A node that was moved below one outside its own subtree still hangs on the root. -/
theorem Rooted.move (h : ∀ m, m ≠ c → g m ≠ none → Above g m rootId) (hmoves : Moves g g' c p)
    (hlive : ∀ n p, parentOf g' n = some p → g' p ≠ none) (hout : ¬ Above g p c) : Rooted g' := by
  -- a chain that does not pass the node is as it was
  have hstays : ∀ m, Above g m rootId → g' m ≠ none → ¬ Above g m c → Above g' m rootId := by
    intro m habove
    induction habove using Relation.ReflTransGen.head_induction_on with
    | refl =>
        intro _ _
        exact Relation.ReflTransGen.refl
    | @head a b hstep _ ih =>
        intro hm hnot
        have hac : a ≠ c := by
          rintro rfl
          exact hnot Relation.ReflTransGen.refl
        have hparent : parentOf g' a = some b := (hmoves.2 a hac hm).2.trans hstep
        exact (ih (hlive a b hparent) fun hb => hnot (hb.head hstep)).head hparent
  have hnode : g' c ≠ none → Above g' c rootId := by
    intro hc
    have hparent := hmoves.1 hc
    have hp := hlive c p hparent
    have hpc : p ≠ c := by
      rintro rfl
      exact hout Relation.ReflTransGen.refl
    exact (hstays p (h p hpc (hmoves.2 p hpc hp).1) hp hout).head hparent
  intro m hm
  by_cases hmc : m = c
  · subst hmc
    exact hnode hm
  have habove := h m hmc (hmoves.2 m hmc hm).1
  induction habove using Relation.ReflTransGen.head_induction_on with
  | refl => exact Relation.ReflTransGen.refl
  | @head a b hstep _ ih =>
      have hparent : parentOf g' a = some b := (hmoves.2 a hmc hm).2.trans hstep
      have hb := hlive a b hparent
      by_cases hbc : b = c
      · subst hbc
        exact (hnode hb).head hparent
      · exact (ih hb hbc).head hparent

/-! ### Walks down the tree -/

section Derive

variable {cfg : Config} {packages : AppIdMap}

theorem deriveSiblings_isSome {recursive : NodeId → Graph → Option Graph}
    (hshapes : ∀ m g g', recursive m g = some g' → SameShapes g g') {l : List NodeId}
    {cur : Option NodeId} {fuel : Nat} (hchain : Chain g Node.next cur l) (hfuel : l.length ≤ fuel)
    (hp : g p ≠ none)
    (hrec : ∀ m ∈ l, ∀ g', SameShapes g g' → (recursive m g').isSome) :
    (deriveSiblings cfg packages recursive p fuel cur g).isSome := by
  induction l generalizing g cur fuel with
  | nil =>
      rw [Chain.nil_iff.1 hchain]
      cases fuel <;> rfl
  | cons m l ih =>
      have hnodup := hchain.nodup
      obtain ⟨rfl, node, hm, hrest⟩ := hchain
      obtain ⟨pnode, hpnode⟩ := Option.ne_none_iff_exists'.1 hp
      cases fuel with
      | zero => cases hfuel
      | succ fuel =>
          have hset : SameShapes g (g.set m (derivePermissions cfg packages pnode node)) :=
            SameShapes.set hm (derivePermissions_shape ..)
          obtain ⟨g₂, hg₂, hshapes₂⟩ : ∃ g₂,
              (if node.child.isSome then
                recursive m (g.set m (derivePermissions cfg packages pnode node))
              else some (g.set m (derivePermissions cfg packages pnode node))) = some g₂ ∧
                SameShapes g g₂ := by
            by_cases hchild : node.child.isSome
            · obtain ⟨g₂, hg₂⟩ := Option.isSome_iff_exists.1 (hrec m (List.mem_cons_self ..) _ hset)
              exact ⟨g₂, (if_pos hchild).trans hg₂, hset.trans (hshapes m _ g₂ hg₂)⟩
            · exact ⟨_, if_neg hchild, hset⟩
          obtain ⟨node₂, hnode₂, hshape₂⟩ := hshapes₂.symm.back hm
          have hnext : node₂.next = node.next := congrArg (fun t => t.2.1) hshape₂
          have hchain₂ : Chain g₂ Node.next node₂.next l := by
            rw [hnext]
            exact hrest.congr fun b _ => hshapes₂.next b
          have hp₂ : g₂ p ≠ none := by
            obtain ⟨pnode₂, hpnode₂, -⟩ := hshapes₂.symm.back hpnode
            rw [hpnode₂]
            exact Option.some_ne_none _
          simp only [deriveSiblings, hpnode, hm, Option.bind_eq_bind, Option.bind_some, hg₂, hnode₂]
          exact ih hchain₂ (Nat.le_of_succ_le_succ hfuel) hp₂ fun b hb g' hg' =>
            hrec b (List.mem_cons_of_mem m hb) g' (hshapes₂.trans hg')

theorem SameShapes.parentOf (h : SameShapes g g') (m : NodeId) : parentOf g' m = parentOf g m := by
  have hm : (g' m).map Node.parent = (g m).map Node.parent :=
    Heap.Agree.comp h (fun t => t.2.2.2) m
  rw [Fuse.parentOf, Fuse.parentOf]
  cases hg : g m with
  | none =>
      rw [hg] at hm
      rw [Option.map_eq_none_iff.1 hm]
  | some node =>
      rw [hg] at hm
      obtain ⟨node', hnode', hparent⟩ := Option.map_eq_some_iff.1 hm
      rw [hnode']
      exact hparent

theorem Balanced.linked (h : Balanced g refs) : ∃ kids, Linked g [] kids := by
  obtain ⟨kids, hlinked, -⟩ := h
  exact ⟨kids, hlinked⟩

/-- The nodes on the way down are different from each other, so the recursion is never deeper than
there are nodes. -/
theorem deriveWithin_isSome {depth : Nat} {path : List NodeId} (hlinked : Linked g [] kids)
    (hacyclic : Acyclic g) (hp : g p ≠ none) (hnodup : (p :: path).Nodup)
    (hpath : ∀ a ∈ p :: path, Above g p a) (hdepth : enough < depth + (p :: path).length) :
    (deriveWithin cfg packages depth p g).isSome := by
  induction depth generalizing g p path with
  | zero =>
      have hcard : (p :: path).length ≤ enough :=
          hnodup.length_le_card.trans (Fintype.card_fin _).le
      omega
  | succ depth ih =>
      obtain ⟨pnode, hpnode⟩ := Option.ne_none_iff_exists'.1 hp
      simp only [deriveWithin, hpnode, Option.bind_eq_bind, Option.bind_some]
      refine deriveSiblings_isSome (fun m g g' => sameShapes_deriveWithin depth m g g')
        (hlinked.chain p pnode hpnode) (hlinked.length_le hpnode) hp fun m hm g' hshapes => ?_
      obtain ⟨-, mnode, hmnode, hparent⟩ := (hlinked.mem p m).1 hm
      have hstep : parentOf g m = some p := (parentOf_eq hmnode).trans hparent
      have hmpath : m ∉ p :: path := fun hmem => hacyclic m p hstep (hpath m hmem)
      have hsub : ∀ m q, parentOf g m = some q → parentOf g' m = some q := fun m q hq =>
        (hshapes.parentOf m).trans hq
      refine ih (hlinked.sameShapes hshapes)
        (hacyclic.mono fun m q hq => (hshapes.parentOf m).symm.trans hq) ?_
        (List.nodup_cons.2 ⟨hmpath, hnodup⟩) (fun a ha => ?_) ?_
      · obtain ⟨mnode', hmnode', -⟩ := hshapes.symm.back hmnode
        rw [hmnode']
        exact Option.some_ne_none _
      · rcases List.mem_cons.1 ha with rfl | ha
        · exact Relation.ReflTransGen.refl
        · exact ((hpath a ha).mono hsub).head (hsub m p hstep)
      · rw [List.length_cons]
        omega

theorem derivePermissionsRecursive_isSome (hlinked : Linked g [] kids) (hacyclic : Acyclic g)
    (hp : g p ≠ none) : (derivePermissionsRecursive cfg packages p g).isSome := by
  refine deriveWithin_isSome hlinked hacyclic hp (List.nodup_singleton p) (fun a ha => ?_) ?_
  · rw [List.mem_singleton.1 ha]
    exact Relation.ReflTransGen.refl
  · rw [List.length_singleton]
    omega

end Derive

/-! ### The daemon does not go astray -/

theorem relinkNodes_isSome (cfg : Config) {o : Outside} {s : Global} {newdir child : NodeId}
    {newName newActualName : Bytes} (h : Balanced s.nodes refs) (hacyclic : Acyclic s.nodes)
    (hchild : 0 < refs child) (hdir : 0 < refs newdir)
    (hroom : RelinkRoom o newdir newName newActualName child s.nodes) :
    ∃ res g', relinkNodes cfg o newdir newName newActualName child s = some (res, g') := by
  obtain ⟨node, hnode⟩ := h.live hchild
  simp only [relinkNodes, hnode, Option.bind_eq_bind, Option.bind_some]
  cases hrename : renameNode o.memory newName newActualName node with
  | none => exact ⟨_, _, rfl⟩
  | some renamed =>
      have hshapes₀ : SameShapes s.nodes (s.nodes.set child renamed) :=
        SameShapes.set hnode (renameNode_shape hrename)
      obtain ⟨g₁, hremove, hbalanced₁, hkeeps₁⟩ :=
        removeNodeFromParent_spec (h.congr hshapes₀) (Graph.set_self ..) hchild
      obtain ⟨dnode, hdnode⟩ := hbalanced₁.live hdir
      obtain ⟨node₁, hnode₁⟩ := hbalanced₁.live hchild
      have hshapes₂ : SameShapes g₁ (g₁.set child (derivePermissions cfg s.packages dnode node₁)) :=
        SameShapes.set hnode₁ (derivePermissions_shape ..)
      have hmoves := hkeeps₁.prunes
      -- the child hangs on nothing now, and the others as they did
      have hsub : ∀ m q, parentOf (g₁.set child (derivePermissions cfg s.packages dnode node₁)) m =
          some q → parentOf s.nodes m = some q := by
        intro m q hq
        rw [hshapes₂.parentOf] at hq
        have hm : g₁ m ≠ none := by
          intro hnone
          rw [parentOf, hnone] at hq
          cases hq
        obtain ⟨-, hparent⟩ := hmoves m hm
        rw [hq] at hparent
        by_cases hmc : m = child
        · subst hmc
          rw [parentOf_eq (Graph.set_self ..)] at hparent
          cases hparent
        · rw [parentOf, Graph.set_of_ne hmc] at hparent
          rw [← hshapes₀.parentOf]
          exact hparent.symm
      obtain ⟨kids, hlinked⟩ := (hbalanced₁.congr hshapes₂).linked
      have hends : (derivePermissionsRecursive cfg s.packages child
          (g₁.set child (derivePermissions cfg s.packages dnode node₁))).isSome := by
        apply derivePermissionsRecursive_isSome hlinked (hacyclic.mono hsub)
        rw [Graph.set_self]
        exact Option.some_ne_none _
      obtain ⟨g₃, hderive⟩ := Option.isSome_iff_exists.1 hends
      have hshapes₃ : SameShapes g₁ g₃ := hshapes₂.trans (sameShapes_deriveWithin _ _ _ _ hderive)
      obtain ⟨g₄, -, hadd, -⟩ := attach_orphan hbalanced₁ hkeeps₁ hshapes₃ hchild hdir
        (hroom node hnode renamed hrename g₁ hremove)
      refine ⟨0, g₄, ?_⟩
      simp only [hremove, Option.bind_some, hdnode, hnode₁, hderive, hadd]

variable {cfg : Config} {lost : NodeId → Nat} {s s' : System} {v : View} {o : Outside}

theorem Inv.root_live (h : Inv lost s) : s.shared.nodes rootId ≠ none := by
  obtain ⟨node, hnode⟩ := h.balanced.live (Names.refs_pos (v := .default) (Or.inl rfl))
  rw [hnode]
  exact Option.some_ne_none _

theorem resolve_isSome {req : Request} (h : Inv lost s) (hpc : s.threads v = .resolve req)
    (hroom : Room s (.run v o)) : ∃ s', resolve req v s = some s' := by
  have hnames := h.named v
  rw [hpc] at hnames
  cases req with
  | entry op nodeid name =>
      obtain ⟨node, hnode⟩ := h.live (hnames nodeid (List.mem_singleton_self nodeid))
      simp only [resolve, hnode, Option.bind_eq_bind, Option.bind_some]
      split <;> exact ⟨_, rfl⟩
  | remove op nodeid name =>
      obtain ⟨node, hnode⟩ := h.live (hnames nodeid (List.mem_singleton_self nodeid))
      simp only [resolve, hnode, Option.bind_eq_bind, Option.bind_some]
      split <;> exact ⟨_, rfl⟩
  | rename nodeid oldName newdir newName =>
      rw [Room, hpc] at hroom
      obtain ⟨node, hnode⟩ := h.live (hnames nodeid (List.mem_cons_self ..))
      obtain ⟨dnode, hdnode⟩ := h.live (hnames newdir
        (List.mem_cons_of_mem nodeid (List.mem_singleton_self newdir)))
      obtain ⟨found, hfind, hfound⟩ := lookupChildByName_spec h.balanced hnode oldName
      simp only [resolve, hnode, hdnode, Option.bind_eq_bind, Option.bind_some, hfind]
      split
      · split
        · exact ⟨_, rfl⟩
        split
        · exact ⟨_, rfl⟩
        · rename_i child oldChildPath hchild
          obtain ⟨c, rfl, hpath⟩ := Option.bind_eq_some_iff.1 hchild
          obtain ⟨path, -, hpair⟩ := Option.map_eq_some_iff.1 hpath
          obtain rfl : c = child := congrArg Prod.fst hpair
          obtain ⟨cnode, hcnode, -⟩ := hfound c rfl
          obtain ⟨g', hacquire, -, -⟩ := acquireNode_spec h.balanced hcnode
            (hroom c (by rw [hfind]; rfl))
          rw [hacquire]
          exact ⟨_, rfl⟩
      · exact ⟨_, rfl⟩

theorem callTask_isSome {task : Task} {childPath actualName : Bytes} (h : Inv lost s)
    (hpc : s.threads v = .call task childPath actualName) :
    ∃ s', callTask cfg o task childPath actualName v s = some s' := by
  have hnames := h.named v
  rw [hpc] at hnames
  cases task with
  | entry op nodeid name =>
      obtain ⟨node, hnode⟩ := h.live (hnames nodeid (List.mem_singleton_self nodeid))
      simp only [callTask, hnode, Option.bind_eq_bind, Option.bind_some]
      split
      · exact ⟨_, rfl⟩
      · cases op <;> exact ⟨_, rfl⟩
  | remove op nodeid name =>
      obtain ⟨node, hnode⟩ := h.live (hnames nodeid (List.mem_singleton_self nodeid))
      simp only [callTask, hnode, Option.bind_eq_bind, Option.bind_some]
      split
      · exact ⟨_, rfl⟩
      · cases op <;> exact ⟨_, rfl⟩
  | rename nodeid oldName newdir newName child oldChildPath => exact ⟨_, rfl⟩

theorem advance_isSome (cfg : Config) (h : Inv lost s) (hacyclic : Acyclic s.shared.nodes)
    (hroom : Room s (.run v o)) : ∃ s', advance cfg v o s = some s' := by
  have hnames := h.named v
  rw [advance]
  cases hpc : s.threads v with
  | idle res => exact ⟨s, rfl⟩
  | resolve req => exact resolve_isSome h hpc hroom
  | access task parentPath => exact ⟨_, rfl⟩
  | search task parentPath => exact ⟨_, rfl⟩
  | call task childPath actualName => exact callTask_isSome h hpc
  | nomedia nodeid name childPath actualName nomedia => exact ⟨_, rfl⟩
  | lstat nodeid name childPath actualName => exact ⟨_, rfl⟩
  | replyEntry nodeid name actualName =>
      rw [hpc] at hnames
      rw [Room, hpc] at hroom
      obtain ⟨node, hnode⟩ := h.live (hnames nodeid (List.mem_singleton_self nodeid))
      rcases acquireOrCreateChild_spec cfg h.balanced hnode hroom o.alloc actualName with
        hfailed | ⟨c, shared, hdone, -⟩
      · simp only [fuseReplyEntry, hfailed, Option.bind_eq_bind, Option.bind_some]
        exact ⟨_, rfl⟩
      · simp only [fuseReplyEntry, hdone, Option.bind_eq_bind, Option.bind_some]
        exact ⟨_, rfl⟩
  | writeEntry node => exact ⟨_, rfl⟩
  | markDeleted nodeid name =>
      rw [hpc] at hnames
      obtain ⟨node, hnode⟩ := h.live (hnames nodeid (List.mem_singleton_self nodeid))
      obtain ⟨found, hfind, hfound⟩ := lookupChildByName_spec h.balanced hnode name
      cases found with
      | none =>
          simp only [markDeleted, hfind, Option.bind_eq_bind, Option.bind_some]
          exact ⟨_, rfl⟩
      | some c =>
          obtain ⟨cnode, hcnode, -⟩ := hfound c rfl
          simp only [markDeleted, hfind, hcnode, Option.bind_eq_bind, Option.bind_some]
          exact ⟨_, rfl⟩
  | notify nodeid child name => exact ⟨_, rfl⟩
  | relink newdir newName newActualName child =>
      rw [hpc] at hnames
      rw [Room, hpc] at hroom
      have hchild : 0 < refs s child + lost child :=
        refs_pos_of_held (v := v) (by rw [hpc]; rfl)
      have hdir : 0 < refs s newdir + lost newdir :=
        (hnames newdir (List.mem_singleton_self newdir)).refs_pos
      obtain ⟨res, g', hrelink⟩ := relinkNodes_isSome cfg h.balanced hacyclic hchild
        hdir hroom
      obtain ⟨hbalanced', -⟩ := relinkNodes_spec h.balanced hchild hdir hroom hrelink
      obtain ⟨g₂, hrelease, -, -⟩ := releaseNode_spec hbalanced' hchild
      simp only [relink, hrelink, hrelease, Option.bind_eq_bind, Option.bind_some]
      exact ⟨_, rfl⟩
  | ioError child res =>
      have hchild : 0 < refs s child + lost child :=
        refs_pos_of_held (v := v) (by rw [hpc]; rfl)
      obtain ⟨g', hrelease, -, -⟩ := releaseNode_spec h.balanced hchild
      simp only [ioError, hrelease, Option.bind_eq_bind, Option.bind_some]
      exact ⟨_, rfl⟩

/-- In a tree no critical section reads freed memory, and each of its walks ends. -/
theorem perform_isSome (cfg : Config) {e : Event} (h : Inv lost s)
    (hacyclic : Acyclic s.shared.nodes)
    (hroom : Room s e) : ∃ s', perform cfg s e = some s' := by
  obtain ⟨kids, hlinked⟩ := h.balanced.linked
  cases e with
  | request v req =>
      rw [perform]
      split <;> exact ⟨_, rfl⟩
  | forget v nodeid nlookup =>
      rw [perform]
      split
      · rename_i hguard
        have hself := le_sum (fun w => s.delivered w nodeid) v
        have hmany : nlookup ≤ refs s nodeid + lost nodeid := by
          rw [refs, entries]
          omega
        obtain ⟨g', htimes, -, -⟩ := releaseTimes_spec nlookup h.balanced hmany
        simp only [handleForget, htimes, Option.bind_eq_bind, Option.bind_some]
        exact ⟨_, rfl⟩
      · exact ⟨_, rfl⟩
  | reload packages =>
      have hends : (derivePermissionsRecursive cfg packages rootId s.shared.nodes).isSome :=
        derivePermissionsRecursive_isSome hlinked hacyclic h.root_live
      obtain ⟨g', hderive⟩ := Option.isSome_iff_exists.1 hends
      simp only [perform, readPackageList, hderive, Option.bind_eq_bind, Option.bind_some]
      exact ⟨_, rfl⟩
  | run v o => exact advance_isSome cfg h hacyclic hroom

/-! ### What a step leaves alone -/

/-- The notification a thread is about to send. -/
def Pc.notice : Pc → Option (NodeId × NodeId × Bytes)
  | .notify nodeid child name => some (nodeid, child, name)
  | _ => none

/-- A thread moves on, sends nothing, is about to send nothing, and does not crash. -/
structure Silent (v : View) (s s' : System) : Prop where
  crashed : s'.crashed = s.crashed
  notified : s'.notified = s.notified
  threads : ∃ pc, pc.notice = none ∧ s'.threads = Function.update s.threads v pc

theorem Silent.setThread (v : View) (s : System) {pc : Pc} (h : pc.notice = none) :
    Silent v s (s.setThread v pc) := ⟨rfl, rfl, pc, h, rfl⟩

theorem silent_fsCall {fault : Option Int} {op : Disk → Except Int Disk} {v : View}
    {fail : Int → Pc} {next : Pc} (s : System) (hfail : ∀ err, (fail err).notice = none)
    (hnext : next.notice = none) : Silent v s (fsCall fault op v fail next s) := by
  unfold fsCall
  split
  · exact Silent.setThread v s (hfail _)
  split
  · exact Silent.setThread v s (hfail _)
  · exact ⟨rfl, rfl, next, hnext, rfl⟩

theorem silent_resolve {req : Request} (hstep : resolve req v s = some s') : Silent v s s' := by
  cases req with
  | entry op nodeid name =>
      obtain ⟨_, -, hstep⟩ := Option.bind_eq_some_iff.1 hstep
      split at hstep <;> exact Option.some.inj hstep ▸ Silent.setThread v s rfl
  | remove op nodeid name =>
      obtain ⟨_, -, hstep⟩ := Option.bind_eq_some_iff.1 hstep
      split at hstep <;> exact Option.some.inj hstep ▸ Silent.setThread v s rfl
  | rename nodeid oldName newdir newName =>
      obtain ⟨_, -, hstep⟩ := Option.bind_eq_some_iff.1 hstep
      obtain ⟨_, -, hstep⟩ := Option.bind_eq_some_iff.1 hstep
      split at hstep
      · split at hstep
        · exact Option.some.inj hstep ▸ Silent.setThread v s rfl
        obtain ⟨_, -, hstep⟩ := Option.bind_eq_some_iff.1 hstep
        split at hstep
        · exact Option.some.inj hstep ▸ Silent.setThread v s rfl
        · obtain ⟨_, -, hstep⟩ := Option.bind_eq_some_iff.1 hstep
          exact Option.some.inj hstep ▸ ⟨rfl, rfl, _, rfl, rfl⟩
      · exact Option.some.inj hstep ▸ Silent.setThread v s rfl

theorem Task.fail_notice (task : Task) (err : Int) : (task.fail err).notice = none := by
  cases task <;> rfl

theorem silent_findFileWithin (task : Task) (parentPath : Bytes) (v : View) (s : System) :
    Silent v s (findFileWithin task parentPath v s) := by
  rw [findFileWithin]
  split
  · exact Silent.setThread v s (task.fail_notice _)
  split <;> exact Silent.setThread v s rfl

theorem silent_callTask {task : Task} {childPath actualName : Bytes}
    (hstep : callTask cfg o task childPath actualName v s = some s') : Silent v s s' := by
  cases task with
  | entry op nodeid name =>
      obtain ⟨parent, -, hstep⟩ := Option.bind_eq_some_iff.1 hstep
      split at hstep
      · exact Option.some.inj hstep ▸ Silent.setThread v s rfl
      have hafter : (afterMkdir cfg parent nodeid name childPath actualName).notice = none := by
        rw [afterMkdir]
        repeat' split
        all_goals rfl
      cases op with
      | lookup => exact Option.some.inj hstep ▸ Silent.setThread v s rfl
      | mknod => exact Option.some.inj hstep ▸ silent_fsCall s (fun _ => rfl) rfl
      | mkdir => exact Option.some.inj hstep ▸ silent_fsCall s (fun _ => rfl) hafter
  | remove op nodeid name =>
      obtain ⟨_, -, hstep⟩ := Option.bind_eq_some_iff.1 hstep
      split at hstep
      · exact Option.some.inj hstep ▸ Silent.setThread v s rfl
      · cases op <;> exact Option.some.inj hstep ▸ silent_fsCall s (fun _ => rfl) rfl
  | rename nodeid oldName newdir newName child oldChildPath =>
      exact Option.some.inj hstep ▸ silent_fsCall s (fun _ => rfl) rfl

/-- A thread goes on in silence, but for the step that marks a node deleted and the one that tells
the other views. -/
theorem advance_cases (hstep : advance cfg v o s = some s') :
    Silent v s s' ∨
      (∃ p name c node, s.threads v = .markDeleted p name ∧
        lookupChildByName p name s.shared.nodes = some (some c) ∧
        s.shared.nodes c = some node ∧
        s' = (s.setNodes (s.shared.nodes.set c { node with deleted := true })).setThread v
          (.notify p c name)) ∨
      ∃ p c name, s.threads v = .notify p c name ∧ s' = notifyOthers p c name v s := by
  rw [advance] at hstep
  split at hstep
  · rename_i res hpc
    refine Or.inl (Option.some.inj hstep ▸ ⟨rfl, rfl, .idle res, rfl, ?_⟩)
    rw [← hpc, Function.update_eq_self]
  · exact Or.inl (silent_resolve hstep)
  · exact Or.inl (Option.some.inj hstep ▸ silent_findFileWithin _ _ v s)
  · exact Or.inl (Option.some.inj hstep ▸ Silent.setThread v s rfl)
  · exact Or.inl (silent_callTask hstep)
  · exact Or.inl (Option.some.inj hstep ▸ silent_fsCall s (fun _ => rfl) rfl)
  · exact Or.inl (Option.some.inj hstep ▸ silent_fsCall s (fun _ => rfl) rfl)
  · obtain ⟨⟨found, shared⟩, -, hstep⟩ := Option.bind_eq_some_iff.1 hstep
    cases found <;> exact Or.inl (Option.some.inj hstep ▸ ⟨rfl, rfl, _, rfl, rfl⟩)
  · exact Or.inl (Option.some.inj hstep ▸ ⟨rfl, rfl, _, rfl, rfl⟩)
  · rename_i p name hpc
    obtain ⟨found, hfound, hstep⟩ := Option.bind_eq_some_iff.1 hstep
    cases found with
    | none => exact Or.inl (Option.some.inj hstep ▸ Silent.setThread v s rfl)
    | some c =>
        obtain ⟨node, hnode, hstep⟩ := Option.bind_eq_some_iff.1 hstep
        exact Or.inr (Or.inl ⟨p, name, c, node, hpc, hfound, hnode, (Option.some.inj hstep).symm⟩)
  · rename_i p c name hpc
    exact Or.inr (Or.inr ⟨p, c, name, hpc, (Option.some.inj hstep).symm⟩)
  · obtain ⟨_, -, hstep⟩ := Option.bind_eq_some_iff.1 hstep
    obtain ⟨_, -, hstep⟩ := Option.bind_eq_some_iff.1 hstep
    exact Or.inl (Option.some.inj hstep ▸ ⟨rfl, rfl, _, rfl, rfl⟩)
  · obtain ⟨_, -, hstep⟩ := Option.bind_eq_some_iff.1 hstep
    exact Or.inl (Option.some.inj hstep ▸ ⟨rfl, rfl, _, rfl, rfl⟩)

theorem perform_crashed {e : Event} (hstep : perform cfg s e = some s') :
    s'.crashed = s.crashed := by
  cases e with
  | request v req =>
      rw [perform] at hstep
      split at hstep <;> exact Option.some.inj hstep ▸ rfl
  | forget v nodeid nlookup =>
      rw [perform] at hstep
      split at hstep
      · obtain ⟨_, -, hstep⟩ := Option.bind_eq_some_iff.1 hstep
        exact Option.some.inj hstep ▸ rfl
      · exact Option.some.inj hstep ▸ rfl
  | run v o =>
      obtain hsilent | ⟨p, name, c, node, -, -, -, rfl⟩ | ⟨p, c, name, -, rfl⟩ :=
        advance_cases hstep
      · exact hsilent.crashed
      · rfl
      · rfl
  | reload packages =>
      obtain ⟨_, -, hstep⟩ := Option.bind_eq_some_iff.1 hstep
      exact Option.some.inj hstep ▸ rfl

/-! ### Runs -/

/-- Every parent chain ends at the root, and a node stands once in the child list of its parent. -/
structure Tree (g : Graph) : Prop where
  rooted : Rooted g
  acyclic : Acyclic g
  listed : ∀ n node, g n = some node → n ≠ rootId → ∃ p pnode siblings,
    node.parent = some p ∧ g p = some pnode ∧ Chain g Node.next pnode.child siblings ∧
      siblings.count n = 1

/-- The walks from a node, down its subtree and along its siblings, come to an end. -/
def WalksEnd (cfg : Config) (s : System) : Prop :=
  ∀ n node, s.shared.nodes n = some node →
    (derivePermissionsRecursive cfg s.shared.packages n s.shared.nodes).isSome ∧
      ∀ p, node.parent = some p → (unlinkSibling n p s.shared.nodes).isSome

/-- The step is the relink of a rename whose new parent is its child or below it. -/
def ClosesLoop (s : System) (e : Event) : Prop :=
  ∃ c p, Relinks s e c p ∧ Above s.shared.nodes p c

structure Standing (s : System) : Prop where
  inv : ∃ lost, Inv lost s
  rooted : Rooted s.shared.nodes
  root : parentOf s.shared.nodes rootId = none
  running : s.crashed = false

theorem Inv.parent_live (h : Inv lost s) (hparent : parentOf s.shared.nodes n = some p) :
    s.shared.nodes p ≠ none := by
  obtain ⟨node, hnode, hparent⟩ := Option.bind_eq_some_iff.1 hparent
  obtain ⟨pnode, hpnode⟩ := h.balanced.parent_live hnode hparent
  rw [hpnode]
  exact Option.some_ne_none _

theorem Standing.tree (h : Standing s) : Tree s.shared.nodes := by
  obtain ⟨lost, hinv⟩ := h.inv
  refine ⟨h.rooted, h.rooted.acyclic h.root, fun n node hn hroot => ?_⟩
  obtain ⟨kids, hlinked⟩ := hinv.balanced.linked
  have habove := h.rooted n (by rw [hn]; exact Option.some_ne_none _)
  obtain heq | ⟨p, hparent, -⟩ := Relation.ReflTransGen.cases_head habove
  · exact absurd heq hroot
  rw [parentOf_eq hn] at hparent
  have hmem : n ∈ kids p := (hlinked.mem p n).2 ⟨List.not_mem_nil, node, hn, hparent⟩
  obtain ⟨pnode, hpnode⟩ := hlinked.home p (List.ne_nil_of_mem hmem)
  have hchain := hlinked.chain p pnode hpnode
  exact ⟨p, pnode, kids p, hparent, hpnode, hchain, List.count_eq_one_of_mem hchain.nodup hmem⟩

theorem Standing.walksEnd (cfg : Config) (h : Standing s) : WalksEnd cfg s := by
  obtain ⟨lost, hinv⟩ := h.inv
  obtain ⟨kids, hlinked⟩ := hinv.balanced.linked
  intro n node hn
  refine ⟨derivePermissionsRecursive_isSome hlinked (h.rooted.acyclic h.root) ?_,
    fun p hparent => ?_⟩
  · rw [hn]
    exact Option.some_ne_none _
  · obtain ⟨g', hunlink, -⟩ := unlinkSibling_spec hlinked hn List.not_mem_nil hparent
    rw [hunlink]
    rfl

/-- A step goes through. -/
theorem Standing.perform (cfg : Config) {e : Event} (h : Standing s) (hroom : Room s e) :
    Fuse.perform cfg s e = some (step cfg s e) := by
  obtain ⟨lost, hinv⟩ := h.inv
  obtain ⟨s', hperform⟩ := perform_isSome cfg hinv (h.rooted.acyclic h.root) hroom
  rw [step, h.running, hperform]
  rfl

theorem Standing.effect (cfg : Config) {e : Event} (h : Standing s) (hroom : Room s e) :
    Effect cfg s e (step cfg s e) := by
  obtain ⟨lost, hinv⟩ := h.inv
  obtain ⟨_, -, -, heffect⟩ := inv_perform hinv hroom (h.perform cfg hroom)
  exact heffect

theorem standing_step (cfg : Config) {e : Event} (h : Standing s) (hroom : Room s e)
    (hloop : ¬ ClosesLoop s e) : Standing (step cfg s e) := by
  obtain ⟨lost, hinv⟩ := h.inv
  have hperform := h.perform cfg hroom
  obtain ⟨lost', hinv', -, heffect⟩ := inv_perform hinv hroom hperform
  generalize step cfg s e = s' at *
  have hlive : ∀ n p, parentOf s'.shared.nodes n = some p → s'.shared.nodes p ≠ none :=
    fun n p => hinv'.parent_live
  have hrunning : s'.crashed = false := (perform_crashed hperform).trans h.running
  rcases heffect.change with hprunes | ⟨c, p, hmoves, hwhy⟩
  · refine ⟨⟨lost', hinv'⟩, h.rooted.prune hprunes hlive, ?_, hrunning⟩
    exact ((hprunes rootId hinv'.root_live).2).trans h.root
  · obtain ⟨hroot, hout⟩ : c ≠ rootId ∧ ¬ Above s.shared.nodes p c := by
      rcases hwhy with ⟨hc, hp⟩ | hrelinks
      · -- the node is new, and nothing is below it yet
        refine ⟨fun heq => hinv.root_live (heq ▸ hc), fun habove => ?_⟩
        rcases Relation.ReflTransGen.cases_tail habove with rfl | ⟨m, -, hparent⟩
        · exact hp hc
        · exact hinv.parent_live hparent hc
      · have hnot : ¬ Above s.shared.nodes p c := fun habove => hloop ⟨c, p, hrelinks, habove⟩
        obtain ⟨v, o, newName, newActualName, -, hpc, -⟩ := hrelinks
        have hnames := hinv.named v p
        rw [hpc] at hnames
        obtain ⟨node, hnode⟩ := hinv.live (hnames (List.mem_singleton_self p))
        refine ⟨?_, hnot⟩
        rintro rfl
        exact hnot (h.rooted p (by rw [hnode]; exact Option.some_ne_none _))
    refine ⟨⟨lost', hinv'⟩, ?_, ?_, hrunning⟩
    · exact Rooted.move (fun m _ hm => h.rooted m hm) hmoves hlive hout
    · exact (hmoves.2 rootId hroot.symm hinv'.root_live).2.trans h.root

theorem standing_start (cfg : Config) (multiUser : Bool) (userid : Nat) (disk : Disk) :
    Standing (start cfg multiUser userid disk) := by
  refine ⟨⟨_, inv_start cfg multiUser userid disk⟩, fun n hn => ?_, ?_, rfl⟩
  · obtain ⟨node, hnode⟩ := Option.ne_none_iff_exists'.1 hn
    rw [(start_nodes_some hnode).1]
    exact Relation.ReflTransGen.refl
  · rw [parentOf, start_nodes, if_pos rfl]
    rfl

theorem standing_always (cfg : Config) (multiUser : Bool) (userid : Nat) (disk : Disk)
    {events : List Event}
    (hevents : Run.EachStep (step cfg) (fun s e => Room s e ∧ ¬ ClosesLoop s e)
      (start cfg multiUser userid disk) events) :
    Run.Always (step cfg) Standing (start cfg multiUser userid disk) events :=
  Run.always_of_eachStep (fun _ _ h hok => standing_step cfg h hok.1 hok.2) (standing_start ..)
    hevents

/-- However the four threads interleave: as long as no rename finds its new parent in the subtree of
its child when it relinks, and no count overflows, the graph is a tree and every walk ends. -/
theorem tree_kept (cfg : Config) (multiUser : Bool) (userid : Nat) (disk : Disk)
    (events : List Event)
    (hevents : Run.EachStep (step cfg) (fun s e => Room s e ∧ ¬ ClosesLoop s e)
      (start cfg multiUser userid disk) events) :
    Run.Always (step cfg)
      (fun s => s.crashed = false ∧ Tree s.shared.nodes ∧ WalksEnd cfg s)
      (start cfg multiUser userid disk) events :=
  (standing_always cfg multiUser userid disk hevents).mono fun _ h =>
    ⟨h.running, h.tree, h.walksEnd cfg⟩

/-! ### A run that keeps the tree, and one that does not -/

/-- The parent chain of a node, followed to its end, does not meet `a`. -/
def clearOf (g : Graph) (a : NodeId) : Nat → NodeId → Bool
  | 0, _ => false
  | k + 1, n =>
      n ≠ a && match parentOf g n with
        | none => true
        | some p => clearOf g a k p

theorem not_above_of_clearOf {a : NodeId} {k : Nat} (h : clearOf g a k n = true) :
    ¬ Above g n a := by
  induction k generalizing n with
  | zero => cases h
  | succ k ih =>
      rw [clearOf, Bool.and_eq_true, decide_eq_true_eq] at h
      obtain ⟨hne, hrest⟩ := h
      intro habove
      rcases Relation.ReflTransGen.cases_head habove with rfl | ⟨p, hparent, hp⟩
      · exact hne rfl
      · rw [hparent] at hrest
        exact ih hrest hp

/-- The relink of a rename whose new parent is clear of its child. -/
def Pc.clear (g : Graph) : Pc → Bool
  | .relink newdir _ _ child => clearOf g child 8 newdir
  | _ => true

def ClearStep (s : System) : Event → Prop
  | .run v _ => (s.threads v).clear s.shared.nodes = true
  | _ => True

instance (s : System) : ∀ e : Event, Decidable (ClearStep s e)
  | .run _ _ => inferInstanceAs (Decidable (_ = _))
  | .request _ _ | .forget _ _ _ | .reload _ => inferInstanceAs (Decidable True)

theorem not_closesLoop_of_clearStep {e : Event} (h : ClearStep s e) : ¬ ClosesLoop s e := by
  rintro ⟨c, p, ⟨v, o, newName, newActualName, rfl, hpc, -⟩, habove⟩
  rw [ClearStep, hpc] at h
  exact not_above_of_clearOf h habove

theorem tree_kept_servedRun :
    Run.Always (step cardConfig)
      (fun s => s.crashed = false ∧ Tree s.shared.nodes ∧ WalksEnd cardConfig s)
      (start cardConfig false 0 card) servedRun :=
  tree_kept cardConfig false 0 card servedRun
    (Run.EachStep.mono (fun _ _ h => ⟨h.1, not_closesLoop_of_clearStep h.2⟩)
      (by decide :
        Run.EachStep (step cardConfig) (fun s e => Room s e ∧ ClearStep s e)
          (start cardConfig false 0 card) servedRun))

/-- One view moves `/b` to `/a/x/b` while another moves `/a/x` to `/b/x`. Both have resolved their
nodes when the first rename takes place below; a third view makes a new `/b`, so the second takes
place as well. Then both relink. -/
def loopRun : List Event :=
  lookupEvents .default 1 [0x61] 2 ++ lookupEvents .default 2 [0x78] 3 ++
    lookupEvents .default 1 [0x62] 4 ++ lookupEvents .read 1 [0x61] 5 ++
    lookupEvents .read 2 [0x78] 5 ++ lookupEvents .read 1 [0x62] 5 ++
    [.request .read (.rename 1 [0x62] 3 [0x62]), .run .read (smooth none),
      .request .default (.rename 2 [0x78] 4 [0x78]), .run .default (smooth none)] ++
    List.replicate 3 (.run .read (smooth none)) ++
    [.request .write (.entry .mkdir 1 [0x62])] ++ List.replicate 4 (.run .write (smooth none)) ++
    List.replicate 4 (.run .default (smooth none)) ++ [.run .read (smooth none)]

/-- Each of the two directories is the other's parent. -/
theorem renames_close_loop :
    ¬ Run.Always (step cardConfig)
      (fun s => s.crashed = false ∧ Tree s.shared.nodes ∧ WalksEnd cardConfig s)
      (start cardConfig false 0 card) loopRun := by
  intro halways
  obtain ⟨-, htree, -⟩ := halways.final
  have hx : parentOf
      (Run.final (step cardConfig) (start cardConfig false 0 card) loopRun).shared.nodes
      3 = some 4 := by decide +kernel
  have hb : parentOf
      (Run.final (step cardConfig) (start cardConfig false 0 card) loopRun).shared.nodes
      4 = some 3 := by decide +kernel
  exact htree.acyclic 3 4 hx (Relation.ReflTransGen.single hb)

end LineageA1000.Fuse
