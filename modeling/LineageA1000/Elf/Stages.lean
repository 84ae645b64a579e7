import LineageA1000.Elf.Inside

/-!
# The stages of a call

What each stage of `elfload_open` leaves alone, and what has gone well before when it succeeds. The
protections come out as one list, in the order of the program headers.
-/

namespace LineageA1000.Elf

open Memory

/-! ### Protections -/

/-- The call of `mprotect` for a segment. -/
def protectionFor (env : Env) (base : Addr) (ph : Phdr) : Protection :=
  let start := base + pageDown ph.pVaddr
  let size := base + pageUp (ph.pVaddr + ph.pMemsz) - start
  ⟨start, size, ph.pFlags.getLsbD 2, ph.pFlags.getLsbD 1, ph.pFlags.getLsbD 0,
    env.mprotect start size (ph.pFlags.getLsbD 2) (ph.pFlags.getLsbD 1) (ph.pFlags.getLsbD 0)⟩

/-- The calls of `mprotect` for a list of program headers, in order. -/
def protectionsFor (env : Env) (base : Addr) (phs : List Phdr) : List Protection :=
  (phs.filter fun ph => ph.pType = ptLoad).map (protectionFor env base)

theorem foldl_protect (env : Env) (base : Addr) (phs : List Phdr) (l : Loader) :
    phs.foldl (fun l ph => protect env base ph l) l =
      { l with protections := l.protections ++ protectionsFor env base phs } := by
  induction phs generalizing l with
  | nil => simp [protectionsFor]
  | cons ph phs ih =>
      rw [List.foldl_cons, ih]
      unfold protect protectionsFor
      split
      · rename_i hother
        rw [List.filter_cons_of_neg (by simpa using hother)]
      · rename_i hload
        rw [List.filter_cons_of_pos (by simpa using hload)]
        simp [protectionFor]

/-! ### Up to the relocations -/

/-- The call has left nothing behind so far. -/
def Untouched (out : List Addr) (l : Loader) : Prop :=
  l.out = out ∧ l.called = [] ∧ l.unmapped = false ∧ l.result = 0

theorem openMapping_untouched (env : Env) (out : List Addr) :
    Untouched out (openMapping env out).1 := by
  obtain ⟨reads, hheaders, -⟩ := readHeaders_spec env (start env out)
  unfold openMapping
  split
  case h_1 l' hl' =>
    rw [hl'] at hheaders
    have hl : l' = _ := hheaders
    rw [hl]
    exact ⟨rfl, rfl, rfl, rfl⟩
  case h_2 l' phs hl' =>
    rw [hl'] at hheaders
    have hl : l' = _ := hheaders
    rw [hl]
    split
    · exact ⟨rfl, rfl, rfl, rfl⟩
    split
    · exact ⟨rfl, rfl, rfl, rfl⟩
    · exact ⟨rfl, rfl, rfl, rfl⟩

theorem mapImage_untouched {out : List Addr} {l : Loader} (h : Untouched out l) (env : Env)
    (phs : List Phdr) (base : Addr) : Untouched out (mapImage env phs base l).1 := by
  obtain ⟨memory, reads, copies, heq, -⟩ := copySegments_spec env base phs l
  rw [mapImage_fst, heq]
  exact h

theorem relocateImage_untouched {out : List Addr} {l : Loader} (h : Untouched out l) (env : Env)
    (image : Image) : Untouched out (relocateImage env image l).1 := by
  obtain ⟨memory, slots, heq, -⟩ := relocateImage_spec env image l
  rw [heq]
  exact h

/-! ### From the relocations on -/

/-- The step of `elfload_open` that runs the constructors. -/
def Image.construct (env : Env) (image : Image) (l : Loader) : Loader :=
  if image.tables.initArray ≠ 0 ∧ image.tables.initArraysz ≠ 0 then
    runConstructors env (image.tables.initArraysz.toNat / 4)
      (image.base + image.tables.initArray) l
  else l

/-- The image with its constructors run, when the wanted symbols are looked up. -/
def Image.ready (env : Env) (image : Image) (l : Loader) : Loader :=
  image.construct env (image.phs.foldl (fun l ph => protect env image.base ph l) l)

theorem ready_eq (env : Env) (image : Image) (l : Loader) : ∃ memory called,
    image.ready env l =
      { l with
        memory := memory
        protections := l.protections ++ protectionsFor env image.base image.phs
        called := called } := by
  obtain ⟨memory, called, hran⟩ := constructors_spec env image
    { l with protections := l.protections ++ protectionsFor env image.base image.phs }
  refine ⟨memory, called, ?_⟩
  unfold Image.ready
  rw [foldl_protect]
  exact hran

/-- The part of the function behind the relocations. -/
theorem finishImage_of_relocated {env : Env} {image : Image} {l l' : Loader}
    (h : relocateImage env image l = (l', true)) (want : List (List UInt8)) :
    finishImage env want image l =
      findWanted env (image.loaded l.memory) want 0 (image.ready env l') := by
  unfold finishImage
  rw [h]
  rfl

theorem finishImage_of_not_relocated {env : Env} {image : Image} {l l' : Loader}
    (h : relocateImage env image l = (l', false)) (want : List (List UInt8)) :
    finishImage env want image l = (l', false) := by
  unfold finishImage
  rw [h]

/-- What the last part changes, and what has gone well before when it succeeds. -/
theorem finishImage_eq (env : Env) (want : List (List UInt8)) (image : Image) (l : Loader) :
    ∃ memory ps called out,
      (finishImage env want image l).1 =
        { (relocateImage env image l).1 with
          memory := memory
          protections := ps
          called := called
          out := out } ∧
      ((finishImage env want image l).2 = true → (relocateImage env image l).2 = true ∧
        ps = (relocateImage env image l).1.protections ++
          protectionsFor env image.base image.phs) := by
  cases hrelocate : relocateImage env image l with
  | mk l' ok =>
  cases ok with
  | false =>
      rw [finishImage_of_not_relocated hrelocate]
      exact ⟨l'.memory, l'.protections, l'.called, l'.out, rfl, nofun⟩
  | true =>
      obtain ⟨memory, called, hready⟩ := ready_eq env image l'
      rw [finishImage_of_relocated hrelocate, hready]
      obtain ⟨out, hfound⟩ := findWanted_spec env (image.loaded l.memory) want 0
        { l' with
          memory := memory
          protections := l'.protections ++ protectionsFor env image.base image.phs
          called := called }
      exact ⟨memory, _, called, out, hfound, fun _ => ⟨rfl, rfl⟩⟩

/-! ### The whole function -/

/-- What has gone well when the function succeeds. -/
theorem elfloadOpen_success {env : Env} {want : List (List UInt8)} {out : List Addr}
    {phs : List Phdr} {base : Addr} (hopen : (openMapping env out).2 = some (phs, base))
    (hsuccess : (elfloadOpen env want out).result ≠ 0) :
    ∃ l image, mapImage env phs (loadBase phs base) (openMapping env out).1 = (l, some image) ∧
      (finishImage env want image l).2 = true ∧
      elfloadOpen env want out =
        { (finishImage env want image l).1 with result := image.base } := by
  have hmapped := mapImage_untouched (openMapping_untouched env out) env phs (loadBase phs base)
  have hmapping : openMapping env out = ((openMapping env out).1, some (phs, base)) :=
    Prod.ext rfl hopen
  unfold elfloadOpen at hsuccess ⊢
  rw [hmapping] at hsuccess ⊢
  dsimp only at hsuccess ⊢
  split at hsuccess
  case h_1 l hl =>
    rw [hl] at hmapped
    exact absurd hmapped.2.2.2 hsuccess
  case h_2 l image hl =>
    rw [hl] at hmapped
    refine ⟨l, image, hl, ?_⟩
    split at hsuccess
    case h_1 l' hl' =>
      obtain ⟨memory, ps, called, out', hfinish, -⟩ := finishImage_eq env want image l
      have hresult := (relocateImage_untouched hmapped env image).2.2.2
      rw [hl'] at hfinish
      have heq : l' = _ := hfinish
      rw [heq] at hsuccess
      exact absurd hresult hsuccess
    case h_2 l' hl' =>
      rw [hl']
      exact ⟨rfl, rfl⟩

theorem elfloadOpen_protections {env : Env} {want : List (List UInt8)} {out : List Addr}
    {phs : List Phdr} {base : Addr} (hopen : (openMapping env out).2 = some (phs, base))
    (hsuccess : (elfloadOpen env want out).result ≠ 0) :
    (elfloadOpen env want out).protections = protectionsFor env (loadBase phs base) phs := by
  obtain ⟨l, image, hmapped, hfinish, heq⟩ := elfloadOpen_success hopen hsuccess
  obtain ⟨hphs, hbase⟩ := mapImage_snd (congrArg Prod.snd hmapped)
  obtain ⟨-, hprotections⟩ := openMapping_spec env out
  obtain ⟨-, -, -, -, hnone⟩ := hprotections phs base hopen
  obtain ⟨memory, reads, copies, hcopied, -⟩ :=
    copySegments_spec env (loadBase phs base) phs (openMapping env out).1
  obtain ⟨memory', slots, hrelocated, -⟩ := relocateImage_spec env image l
  obtain ⟨memory'', ps, called, out', hfinal, hps⟩ := finishImage_eq env want image l
  rw [← mapImage_fst, hmapped] at hcopied
  have hl : l.protections = [] := (congrArg Loader.protections hcopied).trans hnone
  have hbefore : (relocateImage env image l).1.protections = [] :=
    (congrArg Loader.protections hrelocated).trans hl
  rw [heq, hfinal, (hps hfinish).2, hbefore, List.nil_append, hphs, hbase]

end LineageA1000.Elf
