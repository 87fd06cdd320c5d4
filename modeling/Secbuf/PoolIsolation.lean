import Secbuf.FastCustody
import Secbuf.FieldCodec
import Secbuf.StandardPool

/-! Nothing of one holder reaches the next. Every buffer a pool stores was burned on the way
in, whatever its holder did to it, so what `acquire` returns is blank; and from a blank buffer
the safe operations only ever show zeros and bytes stored through them. -/

namespace Secbuf.PoolIsolation
open Calls BigEndian Storage BufferCore BufferOps BufferScript FieldCodec Custody

/-- Holders may do anything, and give back anything. -/
def isolation : Rules where
  ready _ := Blank
  stashed := Blank
  owned _ _ := True
  uses _ _ := True
  returns _ _ := True
  fresh := blank_new
  handed _ := trivial
  used _ _ _ := trivial
  burned _ _ := ⟨blank_burn _, blank_burn _⟩

section
open StandardPool
variable {ι : Type}

theorem standard_allows (s : World ι) (action : StandardPool.Action ι) :
    allows isolation s action := by
  cases action with
  | drop i => exact fun _ _ _ _ _ => trivial
  | use i op => exact fun _ _ => trivial
  | replace i b => exact fun _ _ _ _ => trivial
  | _ => trivial

theorem standard_kept [DecidableEq ι] {s : World ι}
    (run : Reaches StandardPool.Taken World.empty s) : Kept isolation s :=
  kept_run run fun s action _ _ taken => ⟨standard_allows s action, taken⟩

theorem standard_acquire_blank [DecidableEq ι] {s t : World ι}
    (run : Reaches StandardPool.Taken World.empty s) {p : ι}
    (taken : StandardPool.Taken s (.acquire p) t) :
    ∃ b, t.held = ⟨p, b⟩ :: s.held ∧ Blank b := by
  obtain ⟨_, buffer, -, held, blank⟩ := acquired_ready (standard_kept run) taken
  exact ⟨buffer, held, blank⟩

end

section
open FastPool
variable {ι θ : Type}

theorem fast_allows {s : World ι θ} (kept : Kept isolation s) (action : FastPool.Action ι θ) :
    allows isolation s action := by
  cases action with
  | drop t i => exact fun _ _ _ _ => trivial
  | use i op => exact fun _ _ => trivial
  | replace i b => exact fun _ _ _ _ => trivial
  | advance t => exact allows_advance kept (fun _ _ blank => blank) t
  | _ => trivial

theorem fast_kept [DecidableEq ι] [DecidableEq θ] {s : World ι θ}
    (run : Reaches FastPool.Taken World.empty s) : Kept isolation s :=
  kept_run run fun _ action _ kept taken => ⟨fast_allows kept action, taken⟩

theorem fast_acquire_blank [DecidableEq ι] [DecidableEq θ] {s : World ι θ}
    (run : Reaches FastPool.Taken World.empty s) {t : θ} {p : ι} {item : Item}
    (done : s.threads t = .acquireDone p item) : Blank item.buffer := by
  obtain ⟨_, _, blank⟩ := (fast_kept run).carried t p item (by rw [done]; rfl)
  exact blank

end

/-! What a holder sees. -/

inductive HolderStep where
  | op (op : BufferOp)
  | replace (b : Buffer)

/-- The buffer, and every byte its holder has put there so far. -/
structure Holding where
  buffer : Buffer
  own : List (Nat × UInt8)

def Holding.next (h : Holding) : HolderStep → Option Holding
  | .op op => (step op h.buffer).state?.map fun t => ⟨t, op.stores h.buffer ++ h.own⟩
  | .replace b =>
    if b.pos ≤ b.len ∧ b.len ≤ b.data.len then some ⟨b, placed 0 b.data.bytes ++ h.own⟩ else none

/-- Where in the data the bytes that an operation answers with begin. -/
def readsFrom (b : Buffer) : BufferOp → Nat
  | .asSlice | .asMutSlice _ _ => 0
  | _ => b.pos

/-- The bytes of the data that an answer tells. A string tells those of its length as well. -/
def tells : BufferOp → Reply → List UInt8
  | .getString, reply => bigEndian 4 reply.shown.length ++ reply.shown
  | _, reply => reply.shown

/-- Each byte an answer tells is zero, or one that the holder has put at that very index. -/
structure Explained (h : Holding) (op : BufferOp) (reply : Reply) : Prop where
  bytes : ∀ (k : Nat) value, (tells op reply)[k]? = some value →
    value = 0 ∨ (readsFrom h.buffer op + k, value) ∈ h.own
  truth : reply = .bool true → ∃ value, value ≠ 0 ∧ (h.buffer.pos, value) ∈ h.own

structure Own (h : Holding) : Prop where
  valid : Valid h.buffer
  bytes : ∀ (i : Nat) value, h.buffer.data.bytes[i]? = some value → value = 0 ∨ (i, value) ∈ h.own

theorem own_blank {b : Buffer} (blank : Blank b) : Own ⟨b, []⟩ :=
  ⟨blank.valid, fun _ value found => Or.inl (blank.bytes value (List.mem_of_getElem? found))⟩

theorem own_next {h after : Holding} (own : Own h) {action : HolderStep}
    (taken : h.next action = some after) : Own after := by
  cases action with
  | op op =>
    obtain ⟨t, left, rfl⟩ := Option.map_eq_some_iff.mp taken
    obtain ⟨valid, effect⟩ := step_lands own.valid op t left
    refine ⟨valid, fun i value found => ?_⟩
    rcases effect.byte_cases found with zero | stored | old
    · exact Or.inl zero
    · exact Or.inr (List.mem_append_left _ stored)
    · exact (own.bytes i value old).imp_right (List.mem_append_right _)
  | replace b =>
    simp only [Holding.next] at taken
    split_ifs at taken with bounds
    cases taken
    refine ⟨⟨bounds.1, bounds.2⟩, fun i value found => Or.inr (List.mem_append_left _ ?_)⟩
    exact mem_placed.mpr ⟨i, by omega, found⟩

theorem own_run {h after : Holding} (own : Own h) {actions : List HolderStep}
    (script : exec Holding.next h actions = some after) : Own after := by
  induction actions generalizing h with
  | nil =>
    cases script
    exact own
  | cons action rest ih =>
    obtain ⟨middle, taken, later⟩ := Option.bind_eq_some_iff.mp script
    exact ih (own_next own taken) later

theorem window_start (b : Buffer) : window b <+: b.data.bytes.drop b.pos := by
  rw [window, List.drop_take]
  exact List.take_prefix _ _

theorem editRegion_shown {b t : Buffer} {handed : BufferM Buffer.Region} {region : Buffer.Region}
    (given : handed b = .ok region b) (bound : region.start + region.length ≤ b.data.len)
    {offset : Nat} {src view : List UInt8} (done : editRegion handed offset src b = .ok view t) :
    view <+: b.data.bytes.drop region.start := by
  rw [editRegion_inside given bound] at done
  split_ifs at done
  cases done
  exact List.take_prefix _ _

/-- What an answer tells is what lay in the data, from the index its operation reads from on. -/
theorem tells_prefix {b t : Buffer} (valid : Valid b) {op : BufferOp} {reply : Reply}
    (done : step op b = .ok reply t) : tells op reply <+: b.data.bytes.drop (readsFrom b op) := by
  cases op with
  | asSlice =>
    obtain ⟨view, seen, rfl⟩ := map_ok.mp done
    rw [asSliceCall_spec valid] at seen
    cases seen
    exact List.take_prefix _ _
  | asMutSlice offset src =>
    obtain ⟨view, seen, rfl⟩ := map_ok.mp done
    exact editRegion_shown (asMutSlice_spec valid) (by simpa using valid.len_le) seen
  | getWritePtr len offset src =>
    obtain ⟨view, seen, rfl⟩ := map_ok.mp done
    have rule := getWritePtr_spec valid len
    by_cases given : len ≤ 1000000000 ∧ b.pos + len ≤ b.data.len
    · rw [if_pos given] at rule
      exact editRegion_shown rule given.2 seen
    · rw [if_neg given] at rule
      rw [editRegion_refused rule] at seen
      cases seen
  | getByte =>
    obtain ⟨value, seen, rfl⟩ := map_ok.mp done
    exact ((getByte_ok valid value).mp seen).1.trans (window_start b)
  | getU32 =>
    obtain ⟨value, seen, rfl⟩ := map_ok.mp done
    exact ((getU32_ok valid value).mp seen).1.trans (window_start b)
  | getU64 =>
    obtain ⟨value, seen, rfl⟩ := map_ok.mp done
    exact ((getU64_ok valid value).mp seen).1.trans (window_start b)
  | getBytes len =>
    obtain ⟨value, seen, rfl⟩ := map_ok.mp done
    exact ((getBytes_ok_iff valid).mp seen).2.1.trans (window_start b)
  | getBytesRef len =>
    obtain ⟨value, seen, rfl⟩ := map_ok.mp done
    exact ((getBytes_ok_iff valid).mp seen).2.1.trans (window_start b)
  | getPtr len =>
    obtain ⟨value, seen, rfl⟩ := map_ok.mp done
    rw [getPtr_spec valid] at seen
    split_ifs at seen
    cases seen
    exact List.take_prefix _ _
  | getString =>
    obtain ⟨value, seen, rfl⟩ := map_ok.mp done
    exact ((getString_ok valid).mp seen).2.1.trans (window_start b)
  | getBool =>
    obtain ⟨value, seen, rfl⟩ := map_ok.mp done
    exact List.nil_prefix
  | remaining | reset | burn | zeroize | shrinkToFit | clone =>
    cases done
    exact List.nil_prefix
  | _ =>
    obtain ⟨value, seen, rfl⟩ := map_ok.mp done
    exact List.nil_prefix

theorem window_head {b : Buffer} {value : UInt8} (first : [value] <+: window b) :
    b.data.bytes[b.pos]? = some value := by
  obtain ⟨tail, whole⟩ := first.trans (window_start b)
  have found : (b.data.bytes.drop b.pos)[0]? = some value := by
    rw [← whole]
    rfl
  rwa [List.getElem?_drop] at found

theorem bool_source {b t : Buffer} {op : BufferOp} {value : Bool}
    (done : step op b = .ok (.bool value) t) : op = .getBool := by
  cases op with
  | getBool => rfl
  | remaining | reset | burn | zeroize | shrinkToFit | clone => cases done
  | _ =>
    obtain ⟨_, _, same⟩ := map_ok.mp done
    cases same

theorem reply_explained {h : Holding} (own : Own h) {op : BufferOp} {reply : Reply} {t : Buffer}
    (done : step op h.buffer = .ok reply t) : Explained h op reply := by
  constructor
  · intro k value told
    apply own.bytes
    obtain ⟨tail, whole⟩ := tells_prefix own.valid done
    have inside : k < (tells op reply).length := (List.getElem?_eq_some_iff.mp told).1
    rw [← List.getElem?_drop, ← whole, List.getElem?_append_left inside]
    exact told
  · rintro rfl
    obtain rfl := bool_source done
    obtain ⟨truth, read, same⟩ := map_ok.mp done
    cases same
    rw [getBool_eq] at read
    obtain ⟨byte, found, nonzero⟩ := map_ok.mp read
    have there := window_head ((getByte_ok own.valid byte).mp found).1
    have different : byte ≠ 0 := by simpa using nonzero
    exact ⟨byte, different, (own.bytes _ byte there).resolve_left different⟩

/-- Whatever the holders of any number of standard or fast pools have done, in any order of
calls and, for the fast pools, of atomic steps, a buffer `acquire` returns is blank; and all
that any script of safe operations on a blank buffer can read at an index is zero or a byte that its
own holder put at that index. -/
theorem acquired_buffers_isolated {ι θ : Type} [DecidableEq ι] [DecidableEq θ] :
    (∀ s : StandardPool.World ι, Reaches StandardPool.Taken StandardPool.World.empty s →
      ∀ p t, StandardPool.Taken s (.acquire p) t →
        ∃ b, t.held = ⟨p, b⟩ :: s.held ∧ Blank b) ∧
    (∀ s : FastPool.World ι θ, Reaches FastPool.Taken FastPool.World.empty s →
      ∀ t p item, s.threads t = .acquireDone p item → Blank item.buffer) ∧
    ∀ b, Blank b → ∀ actions h, exec Holding.next ⟨b, []⟩ actions = some h →
      ∀ op reply t, step op h.buffer = .ok reply t → Explained h op reply :=
  ⟨fun _ run _ _ taken => standard_acquire_blank run taken,
    fun _ run _ _ _ done => fast_acquire_blank run done,
    fun _ blank _ _ script _ _ _ done => reply_explained (own_run (own_blank blank) script) done⟩

theorem acquired_buffers_isolated_again :
    ∃ s t : StandardPool.World Unit, ∃ b : Buffer, ∃ h : Holding,
      exec StandardPool.next StandardPool.World.empty
        [.new () ⟨8, 1, 0⟩, .acquire (), .use 0 (.putByte 7), .drop 0] = some s ∧
      StandardPool.Taken s (.acquire ()) t ∧ t.held = [⟨(), b⟩] ∧ Blank b ∧
      exec Holding.next ⟨b, []⟩ [.op (.setLen 1)] = some h ∧
      step .getByte h.buffer = .ok (.byte 0) (advance h.buffer 1) ∧
      Explained h .getByte (.byte 0) := by
  obtain ⟨s, script, alone, t, taken, b, only, h, moved, read⟩ :
      ∃ s : StandardPool.World Unit, exec StandardPool.next StandardPool.World.empty
        [.new () ⟨8, 1, 0⟩, .acquire (), .use 0 (.putByte 7), .drop 0] = some s ∧ s.held = [] ∧
      ∃ t, StandardPool.Taken s (.acquire ()) t ∧ ∃ b : Buffer, t.held = [⟨(), b⟩] ∧
      ∃ h, exec Holding.next ⟨b, []⟩ [.op (.setLen 1)] = some h ∧
        step .getByte h.buffer = .ok (.byte 0) (advance h.buffer 1) :=
    ⟨_, rfl, rfl, _, rfl, _, rfl, _, rfl, rfl⟩
  obtain ⟨standard, -, holder⟩ := @acquired_buffers_isolated Unit Unit _ _
  obtain ⟨other, held, blank⟩ := standard s (.of_exec script) () t taken
  rw [only, alone] at held
  cases held
  exact ⟨s, t, b, h, script, taken, only, blank, moved, read,
    holder b blank _ h moved .getByte _ _ read⟩

end Secbuf.PoolIsolation
