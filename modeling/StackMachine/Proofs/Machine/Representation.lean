import StackMachine.Proofs.Machine.ControlFlow
import StackMachine.Proofs.Machine.Requests

/-!
# The representation invariant

Whatever the code holds and whatever is asked of a machine, its stack pointer stays within the cells, its frames
are linked by the calls that made them up to the outermost one, and its instruction pointer stays within the code
once it has left the address it was started at. If no frame size runs over, nothing that is not there is ever
addressed, and only a frame that is too large to be allocated can make the machine give up.
-/

set_option autoImplicit false

namespace StackMachine.Machine

/-! ## Linked frames -/

structure Outermost (c : Setup) (a : Activation) : Prop where
  function : a.function = c.table.entry
  returnAddress : a.returnAddress = -1
  invoker : a.invoker = -1
  slots : a.slots = []

/-- `a` was made by a call in the code, with `i` frames below it. -/
structure Called (c : Setup) (i : Nat) (a : Activation) : Prop where
  invoker : a.invoker = i - 1
  slots : (a.slots.length : Int) = a.function.args.toInt + a.function.locals.toInt
  two_le : 2 ≤ a.returnAddress
  le_size : a.returnAddress ≤ c.code.size
  caller : c.code[(a.returnAddress - 2).toNat]? = some Opcode.call.word
  callee : c.code[(a.returnAddress - 1).toNat]?.bind c.table.lookup? = some a.function

def Placed (c : Setup) : Nat → Activation → Prop
  | 0, a => Outermost c a
  | i + 1, a => Called c (i + 1) a

/-- Every frame, innermost first, is in its place. -/
def Linked (c : Setup) : List Activation → Prop
  | [] => True
  | a :: rest => Placed c rest.length a ∧ Linked c rest

/-- All of an activation but the values in its slots. -/
def Activation.shape (a : Activation) : Descriptor × Int × Int × Nat :=
  (a.function, a.returnAddress, a.invoker, a.slots.length)

section Linked

variable {c : Setup} {as bs : List Activation}

theorem Linked.placed (h : Linked c as) {i : Nat} {a : Activation} (ha : as.reverse[i]? = some a) :
    Placed c i a := by
  induction as with
  | nil => cases ha
  | cons b rest ih =>
    obtain ⟨hb, hrest⟩ := h
    rw [List.reverse_cons, List.getElem?_append, List.length_reverse] at ha
    split at ha
    next => exact ih hrest ha
    next hlt =>
      rw [List.getElem?_singleton] at ha
      split at ha
      next hi =>
        cases ha
        obtain rfl : i = rest.length := by omega
        exact hb
      next => cases ha

theorem placed_of_shape {i : Nat} {a b : Activation} (h : b.shape = a.shape) (ha : Placed c i a) :
    Placed c i b := by
  obtain ⟨bf, br, bi, bs⟩ := b
  simp only [Activation.shape, Prod.mk.injEq] at h
  obtain ⟨rfl, rfl, rfl, hslots⟩ := h
  cases i with
  | zero =>
    obtain ⟨hfunction, hreturn, hinvoker, hnil⟩ := ha
    rw [hnil] at hslots
    exact ⟨hfunction, hreturn, hinvoker, List.length_eq_zero_iff.mp hslots⟩
  | succ i =>
    obtain ⟨hinvoker, hlength, htwo, hsize, hcaller, hcallee⟩ := ha
    exact ⟨hinvoker, hslots ▸ hlength, htwo, hsize, hcaller, hcallee⟩

theorem linked_of_shape (h : bs.map Activation.shape = as.map Activation.shape) (ha : Linked c as) :
    Linked c bs := by
  induction as generalizing bs with
  | nil =>
    obtain rfl := List.map_eq_nil_iff.mp h
    exact ha
  | cons a as ih =>
    obtain ⟨b, bs, rfl, hb, hbs⟩ := List.map_eq_cons_iff.mp h
    have hlength : bs.length = as.length := by
      simpa using congrArg List.length hbs
    exact ⟨hlength ▸ placed_of_shape hb ha.1, ih hbs ha.2⟩

theorem called_activation {s : State} {x : Configuration} {id : Word} {d : Descriptor}
    (hi : Fetches c s (.call id)) (hd : c.table.lookup? id = some d)
    (hargs : d.args.toInt ≤ x.stack.length) :
    Called c x.frames.length (x.activation d (s.ip.toNat + (Instr.call id).size)) := by
  obtain ⟨hopcode, hoperand, hsize⟩ := words_of_fetch? hi.fetched
  have hnonneg := FunctionTable.nonneg_of_lookup? hd
  have hargs0 : 0 ≤ d.args.toInt := Int64.le_iff_toInt_le.mp hnonneg.1
  have hlocals0 : 0 ≤ d.locals.toInt := Int64.le_iff_toInt_le.mp hnonneg.2.1
  have htwo : (Instr.call id).size = 2 := rfl
  rw [htwo] at hsize ⊢
  refine ⟨rfl, ?_, ?_, ?_, ?_, ?_⟩
  · simp only [Configuration.activation, List.length_append, List.length_reverse, List.length_take,
      List.length_replicate]
    omega
  · simp only [Configuration.activation]
    omega
  · simp only [Configuration.activation]
    omega
  · have haddr : (((s.ip.toNat + 2 : Nat) : Int) - 2).toNat = s.ip.toNat := by omega
    simp only [Configuration.activation, haddr]
    exact hopcode
  · have haddr : (((s.ip.toNat + 2 : Nat) : Int) - 1).toNat = s.ip.toNat + 1 := by omega
    simp only [Configuration.activation, haddr, hoperand id rfl, Option.bind_some]
    exact hd

theorem linked_flow {s : State} {i : Instr} {x y : Configuration} {ip : Int} (hi : Fetches c s i)
    (hx : Linked c x.frames) (hne : x.frames ≠ [])
    (h : Flow c (s.ip.toNat + i.size) i x (.ok (ip, y))) :
    Linked c y.frames ∧ y.frames ≠ [] ∧ 0 ≤ ip ∧ ip ≤ c.code.size := by
  obtain ⟨-, -, hsize⟩ := words_of_fetch? hi.fetched
  cases h with
  | advance hy =>
    rw [hy]
    exact ⟨hx, hne, by omega, by omega⟩
  | branch _ hw hy =>
    obtain ⟨-, hlt⟩ := Word.index?_eq_some_iff.mp hw
    rw [hy]
    exact ⟨hx, hne, by omega, by omega⟩
  | store hf hy =>
    rw [hf] at hx
    rw [hy]
    refine ⟨linked_of_shape ?_ hx, by simp, by omega, by omega⟩
    simp [Activation.shape]
  | call hcall hd hargs hdepth haddr hy =>
    subst hcall
    obtain ⟨addr, haddr⟩ := Option.ne_none_iff_exists'.mp haddr
    obtain ⟨haddr, hlt⟩ := Word.index?_eq_some_iff.mp haddr
    rw [hy]
    refine ⟨⟨?_, hx⟩, by simp, by omega, by omega⟩
    have hcalled := called_activation hi hd hargs
    have hpos : 0 < x.frames.length := List.length_pos_iff.mpr hne
    obtain ⟨n, hn⟩ : ∃ n, x.frames.length = n + 1 := ⟨x.frames.length - 1, by omega⟩
    rw [hn] at hcalled ⊢
    exact hcalled
  | ret _ hf hy =>
    rw [hf] at hx
    rw [hy]
    -- The frame that is left is not the outermost one.
    have hcalled : Called c _ _ := hx.1
    exact ⟨hx.2, by simp, by have := hcalled.two_le; omega, hcalled.le_size⟩

end Linked

/-! ## Machines -/

/-- What holds of a machine that was started at `address`. -/
structure Represented (c : Setup) (address : Word) (s : State) : Prop where
  sound : Sound c s
  depth_pos : 1 ≤ s.depth
  depth_le : s.depth ≤ c.limits.maxDepth
  /-- Frames counted from the outermost one. -/
  placed : ∀ i f, s.frames.reverse[i]? = some f → Placed c i (.of f)
  pointer : 0 ≤ s.ip ∧ s.ip ≤ c.code.size ∨ s.ip = address.toInt

/-- What cycles preserve. -/
structure Standing (c : Setup) (address : Word) (s : State) : Prop where
  sound : Sound c s
  linked : Linked c s.view.frames
  active : s.view.frames ≠ []
  pointer : 0 ≤ s.ip ∧ s.ip ≤ c.code.size ∨ s.ip = address.toInt

theorem Standing.represented {c : Setup} {address : Word} {s : State} (h : Standing c address s) :
    Represented c address s := by
  have hlength : s.view.frames.length = s.depth := (List.length_map _).trans h.sound.length_frames
  have hpos := List.length_pos_iff.mpr h.active
  refine ⟨h.sound, by omega, Nat.le_trans h.sound.depth_le h.sound.frames_le, ?_, h.pointer⟩
  intro i f hf
  apply h.linked.placed
  rw [State.view, ← List.map_reverse, List.getElem?_map, hf]
  rfl

section Standing

variable {c : Setup} {address : Word} {s t : State}

theorem Standing.of_frames (h : Standing c address s) (ht : Sound c t)
    (hframes : t.view.frames = s.view.frames) (hip : t.ip = s.ip) : Standing c address t where
  sound := ht
  linked := hframes ▸ h.linked
  active := hframes ▸ h.active
  pointer := hip ▸ h.pointer

theorem standing_cycle (h : Standing c address s) : Standing c address (leftBy (cycle c s)) := by
  obtain ⟨hsound, -, hcycled⟩ := cycle_flow h.sound
  cases hcycled with
  | moved hi hflow hframes _ =>
    obtain ⟨hlinked, hactive, hip⟩ := linked_flow hi h.linked h.active hflow
    rw [← hframes] at hlinked hactive
    exact ⟨hsound, hlinked, hactive, .inl hip⟩
  | stayed hip hframes _ => exact h.of_frames hsound hframes hip

/-- Only the entry into a function whose frame cannot be made is abandoned. -/
theorem refused_of_cycle {a : Abandoned} (h : Standing c address s) (hcycle : cycle c s = .error a t) :
    ∃ d ∈ c.table.entries, Frame.refusal? d.frameSize = some a := by
  have hcases := cycle_cases c s
  rw [hcycle] at hcases
  cases hcases with
  | abandoned hi happly =>
    obtain ⟨-, -, hflow⟩ := flow_of_error h.sound happly
    cases hflow with
    | frameless hnil => exact (h.active hnil).elim
    | frameRefused _ hd hsize => exact ⟨_, FunctionTable.mem_of_lookup? hd, hsize⟩

theorem standing_begin (address : Word) (h : Sound c s) (hdepth : 1 ≤ c.limits.maxDepth) :
    Standing c address (leftBy (begin c address s)) := by
  obtain ⟨t, hbegin, ht, hframes, hip, -⟩ := begin_view address h hdepth
  rw [hbegin]
  refine ⟨ht, ?_, ?_, .inr hip⟩
  · simp only [leftBy, hframes]
    exact ⟨⟨rfl, rfl, rfl, rfl⟩, trivial⟩
  · simp [leftBy, hframes]

theorem shape_overwrite (s : State) (d i : Nat) (v : Word) :
    (s.overwrite d i v).view.frames.map Activation.shape = s.view.frames.map Activation.shape := by
  have hshape : ∀ f : Frame, (Activation.of (f.setCell i v)).shape = (Activation.of f).shape := by
    intro f
    rw [Activation.of_setCell]
    simp [Activation.shape]
  have hmap : (s.arena.frames.toList.modify d (·.setCell i v)).map (fun f => (Activation.of f).shape) =
      s.arena.frames.toList.map fun f => (Activation.of f).shape := by
    apply List.ext_getElem?
    intro n
    rw [List.getElem?_map, List.getElem?_modify, List.getElem?_map]
    cases s.arena.frames.toList[n]? with
    | none => rfl
    | some f =>
      by_cases hn : d = n
      · simp [hn, hshape]
      · simp [hn]
  simp only [State.view, State.frames, CallStack.toList, State.overwrite, List.map_map, Function.comp_def,
    List.map_reverse, List.map_take, Array.toList_modify, hmap]

theorem standing_overwrite (h : Standing c address s) (d i : Nat) (v : Word) :
    Standing c address (s.overwrite d i v) where
  sound := h.sound.modifyFrame d fun _ hf => hf.setCell i v
  linked := linked_of_shape (shape_overwrite s d i v) h.linked
  active := by
    have hlength := congrArg List.length (shape_overwrite s d i v)
    have hpos := List.length_pos_iff.mpr h.active
    rw [List.length_map, List.length_map] at hlength
    exact List.length_pos_iff.mp (by omega)
  pointer := h.pointer

end Standing

/-- A frame that is refused although its size has not run over is too large to be allocated. -/
theorem allocation_of_refusal? {d : Descriptor} {a : Abandoned} (hd : d.Nonneg)
    (hsum : d.args.toInt + d.locals.toInt ≤ Int64.maxValue.toInt) (h : Frame.refusal? d.frameSize = some a) :
    a = .allocation ∧ largestBlock < d.args.toInt + d.locals.toInt := by
  have hnonneg := Descriptor.frameSize_nonneg hd hsum
  have hsize := Descriptor.toInt_frameSize hd hnonneg
  obtain ⟨hneg, -⟩ | ⟨-, hlarge, rfl⟩ := Frame.refusal?_eq_some_iff.mp h
  · exact absurd hnonneg (Int.not_le.mpr hneg)
  · exact ⟨rfl, hsize ▸ hlarge⟩

/-- A machine stands as it should after its first start, and does not run before. -/
def Stands (c : Setup) : Option Word → State → Prop
  | none, s => Sound c s ∧ s.status ≠ .running
  | some address, s => Standing c address s

theorem Stands.sound {c : Setup} {o : Option Word} {s : State} (h : Stands c o s) : Sound c s := by
  cases o with
  | none => exact h.1
  | some address => exact Standing.sound h

theorem Stands.running {c : Setup} {o : Option Word} {s : State} (h : Stands c o s)
    (hrun : s.status = .running) : ∃ address, o = some address ∧ Standing c address s := by
  cases o with
  | none => exact (h.2 hrun).elim
  | some address => exact ⟨address, rfl, h⟩

theorem stands_invariant {c : Setup} (hdepth : 1 ≤ c.limits.maxDepth) : Invariant c (Stands c) where
  start _ _ address h := standing_begin address h.sound hdepth
  cycle _ _ h hrun := by
    obtain ⟨address, rfl, h⟩ := h.running hrun
    exact standing_cycle h
  cancel _ _ why h hrun := by
    obtain ⟨address, rfl, h⟩ := h.running hrun
    exact h.of_frames { h.sound with } rfl rfl
  overwrite o s d i v h := by
    cases o with
    | none => exact ⟨h.1.modifyFrame d fun _ hf => hf.setCell i v, h.2⟩
    | some address => exact standing_overwrite h d i v

theorem make_eq_ok (code : Array Word) {globals : Word} (table : FunctionTable) (base : Limits) (o : Options)
    (h : 0 ≤ globals) (hallocates : Allocates globals (base.adjust o.sizing)) :
    ∃ m, make code globals (some table) base o = .ok m ∧ m.setup.code = code ∧ m.setup.table = table ∧
      m.setup.limits = base.adjust o.sizing ∧ m.state.globals.size = globals.toInt.toNat ∧
      m.state.status = .ready ∧ Sound m.setup m.state :=
  ⟨_, make_of_allocates table h hallocates, rfl, rfl, rfl, Array.size_replicate, rfl, sound_fresh code globals table _ o⟩

theorem setup_of_make {code : Array Word} {globals : Word} {table : FunctionTable} {base : Limits} {o : Options}
    {m : Machine} (h : make code globals (some table) base o = .ok m) :
    m.setup = { code := code, table := table, limits := base.adjust o.sizing, tracing := o.tracing } := by
  obtain ⟨t, ht, -, -, rfl⟩ := make_eq_ok_iff.mp h
  cases ht
  rfl

theorem stands_with_globals {c : Setup} (hdepth : 1 ≤ c.limits.maxDepth) (g : Nat) :
    Invariant c fun o s => Stands c o s ∧ s.globals.size = g where
  start o s address h := by
    obtain ⟨t, hbegin, -, -, -, -, hglobals⟩ := begin_view address h.1.sound hdepth
    refine ⟨(stands_invariant hdepth).start o s address h.1, ?_⟩
    rw [hbegin, leftBy, hglobals, h.2]
  cycle o s h hrun := by
    obtain ⟨-, hglobals, -⟩ := cycle_flow h.1.sound
    exact ⟨(stands_invariant hdepth).cycle o s h.1 hrun, hglobals.trans h.2⟩
  cancel o s why h hrun := ⟨(stands_invariant hdepth).cancel o s why h.1 hrun, h.2⟩
  overwrite o s d i v h := ⟨(stands_invariant hdepth).overwrite o s d i v h.1, h.2⟩

theorem stands_of_make {m : Machine} {code : Array Word} {globals : Word} {table : FunctionTable} {base : Limits}
    {o : Options} (hdepth : 1 ≤ (base.adjust o.sizing).maxDepth) (hmake : make code globals (some table) base o = .ok m)
    (history : List Request) :
    Stands m.setup (startedAt m.setup.table history) (m.serve history).state ∧
      (m.serve history).state.globals.size = globals.toInt.toNat := by
  obtain ⟨t, ht, -, -, rfl⟩ := make_eq_ok_iff.mp hmake
  cases ht
  refine (stands_with_globals hdepth _).serve ⟨⟨sound_fresh code globals table _ o, ?_⟩, Array.size_replicate⟩ history
  intro h
  cases h

/-- A machine that runs stands as it should, with the code, the table and the globals it was made with. -/
theorem standing_of_make {m : Machine} {code : Array Word} {globals : Word} {table : Option FunctionTable} {base : Limits}
    {o : Options} {history : List Request} (hbase : 1 ≤ base.maxDepth) (hmake : make code globals table base o = .ok m)
    (hrun : (m.serve history).state.status = .running) :
    m.setup.code = code ∧ table = some m.setup.table ∧
      (m.serve history).state.globals.size = globals.toInt.toNat ∧
      ∃ address, Standing m.setup address (m.serve history).state := by
  cases table with
  | none => cases hmake
  | some t =>
    obtain ⟨hstands, hsize⟩ := stands_of_make (Limits.adjust_maxDepth_pos _ hbase) hmake history
    obtain ⟨address, -, hstanding⟩ := hstands.running hrun
    have hsetup := setup_of_make hmake
    exact ⟨congrArg (·.code) hsetup, congrArg (some ·.table) hsetup.symm, hsize, address, hstanding⟩

/-- A machine is made if its globals and its operand stack can be allocated. Whatever its code is and however it is
started, run and written to, once started it keeps its representation invariant. If frame sizes do not run over, a
request is abandoned only because a frame is too large to be allocated. -/
theorem served_machine_represented (code : Array Word) (globals : Word) (table : FunctionTable) (o : Options)
    (hglobals : 0 ≤ globals)
    (hsize : ∀ d ∈ table.entries, d.args.toInt + d.locals.toInt ≤ Int64.maxValue.toInt) :
    (Allocates globals (Limits.adjust {} o.sizing) → ∃ m, make code globals (some table) {} o = .ok m) ∧
    (¬ Allocates globals (Limits.adjust {} o.sizing) →
      make code globals (some table) {} o = .error (.abandoned .allocation)) ∧
    ∀ m, make code globals (some table) {} o = .ok m → m.setup.code = code ∧ m.setup.table = table ∧
      ∀ history : List Request,
        (∀ r a, ((m.serve history).answer r).2 = some (.abandoned a) →
          a = .allocation ∧ ∃ d ∈ table.entries, largestBlock < d.args.toInt + d.locals.toInt) ∧
        (∀ address, startedAt table history = some address →
          Represented m.setup address (m.serve history).state) := by
  refine ⟨fun hallocates => ⟨_, make_of_allocates table hglobals hallocates⟩, make_refused table hglobals, ?_⟩
  intro m hm
  have hsetup := setup_of_make hm
  have htable : m.setup.table = table := congrArg (·.table) hsetup
  have hdepth : 1 ≤ m.setup.limits.maxDepth := by
    rw [hsetup]
    exact Limits.adjust_maxDepth_pos _ (by decide)
  refine ⟨congrArg (·.code) hsetup, htable, ?_⟩
  intro history
  have hserved := (stands_of_make (Limits.adjust_maxDepth_pos _ (by decide)) hm history).1
  constructor
  · have hreason : ∀ o s a t, Stands m.setup o s → s.status = .running → cycle m.setup s = .error a t →
        a = .allocation ∧ ∃ d ∈ table.entries, largestBlock < d.args.toInt + d.locals.toInt := by
      intro o s a t hs hrun hcycle
      obtain ⟨address, rfl, hs⟩ := hs.running hrun
      obtain ⟨d, hd, hrefused⟩ := refused_of_cycle hs hcycle
      rw [htable] at hd
      obtain ⟨rfl, hlarge⟩ := allocation_of_refusal? (table.nonneg d hd) (hsize d hd) hrefused
      exact ⟨rfl, d, hd, hlarge⟩
    exact fun r a => abandoned_of_answer (stands_invariant hdepth) hreason (setup_serve m history) hserved
  · intro address haddress
    rw [htable, haddress] at hserved
    exact Standing.represented hserved

/-- A table whose second function takes one argument and has two locals. -/
def pairTable : FunctionTable where
  entries := #[{ name := "main" }, { name := "f", args := 1, locals := 2, address := 5 }]
  size_pos := by decide
  nonneg := by decide

/-- Two steps into code that pushes a constant and calls the second function with it. -/
theorem pairTable_call_represented :
    0 ≤ (1 : Word) ∧ (∀ d ∈ pairTable.entries, d.args.toInt + d.locals.toInt ≤ Int64.maxValue.toInt) ∧
    ∃ m, make #[9, 7, 16, 1, 18, 17] 1 (some pairTable) {} { sizing := { stackSize := some 4 } } = .ok m ∧
      (m.serve [.start 0, .step, .step]).state.depth = 2 ∧
      Represented m.setup 0 (m.serve [.start 0, .step, .step]).state := by
  have hsize : ∀ d ∈ pairTable.entries, d.args.toInt + d.locals.toInt ≤ Int64.maxValue.toInt := by decide
  obtain ⟨hmade, -, h⟩ := served_machine_represented #[9, 7, 16, 1, 18, 17] 1 pairTable
    { sizing := { stackSize := some 4 } } (by decide) hsize
  obtain ⟨m, hm⟩ := hmade (by decide)
  obtain ⟨-, -, hserved⟩ := h m hm
  refine ⟨by decide, hsize, m, hm, ?_, (hserved _).2 0 rfl⟩
  cases hm
  rfl

/-- A table whose second function has so many locals that its frame is no block of memory. -/
def wideTable : FunctionTable where
  entries := #[{ name := "main" }, { name := "f", args := 1, locals := 4611686018427387904, address := 4 }]
  size_pos := by decide
  nonneg := by decide

/-- The call of the second function gives up, though its size does not run over. -/
theorem wideTable_call_abandoned :
    (∀ d ∈ wideTable.entries, d.args.toInt + d.locals.toInt ≤ Int64.maxValue.toInt) ∧
    ∃ m, make #[9, 7, 16, 1, 18] 0 (some wideTable) {} { sizing := { stackSize := some 4 } } = .ok m ∧
      ((m.serve [.start 0, .step]).answer .step).2 = some (.abandoned .allocation) :=
  ⟨by decide, _, rfl, rfl⟩

end StackMachine.Machine
