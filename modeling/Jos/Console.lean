import Jos.Printfmt
import Mathlib.Data.List.TakeWhile

/-!
# Console output

`cprintf` exists twice, over the same `vprintfmt`. In the kernel, `putch` hands each character to
the console. In the user library, `putch` collects 255 characters in a buffer and prints it by
`sys_cputs`, which in the kernel is again a `cprintf` with the format `%.*s`.

**The model.** The calls of `putch` that `vprintfmt` makes are the output of its model
(`putchCalls`), and the two `putch` functions are folded over them. The buffer of the user library
is on the stack of the program, which has just written to it, so the check of `sys_cputs` passes and
the kernel sees the buffer's bytes (`withBuf`). A console device gets the low byte of a character.

**Bytes.** The string loop ends at a zero byte, so what `sys_cputs` prints of a chunk is the part
before its first zero byte (`cputsBytes_eq`), and the rest of the chunk is lost.

**Counts.** `*cnt++` in the kernel's `putch` moves the pointer and not the count.
-/

namespace Jos

/-! ## Definitions -/

/-- The byte a console device gets for a character. -/
def byteOf (ch : Int) : BitVec 8 := BitVec.ofInt 8 ch

/-- The characters `vprintfmt` passes to `putch`, in order, and how it ends. -/
def putchCalls (mem : Word → Option (BitVec 8)) (fuel : Nat) (fmt : String) (args : List Word) :
    Except Stop Unit × List Int :=
  let r := cprintf mem fuel fmt args {}
  (r.1, r.2.out)

/-- Memory as the kernel sees it, with the 256 bytes of the buffer at `base`. -/
def withBuf (mem : Word → Option (BitVec 8)) (base : Word) (buf : Nat → BitVec 8) (a : Word) :
    Option (BitVec 8) :=
  if base.toNat ≤ a.toNat ∧ a.toNat < base.toNat + 256 then some (buf (a.toNat - base.toNat))
  else mem a

/-- What `sys_cputs` puts on the console for the first `len` bytes of the buffer. -/
def cputsBytes (mem : Word → Option (BitVec 8)) (base : Word) (buf : Nat → BitVec 8) (len : Nat) :
    List (BitVec 8) :=
  (cputs (withBuf mem base buf) (len + 1) base (BitVec.ofNat 32 len) {}).2.out.map byteOf

/-- `struct printbuf`, and what is on the console so far. -/
structure Printbuf where
  idx : Nat
  cnt : Word
  buf : Nat → BitVec 8
  console : List (BitVec 8)

/-- `putch` of the user library. -/
def userPutch (mem : Word → Option (BitVec 8)) (base : Word) (b : Printbuf) (ch : Int) : Printbuf :=
  let buf := Function.update b.buf b.idx (byteOf ch)
  let idx := b.idx + 1
  if idx = 256 - 1 then
    { idx := 0, cnt := b.cnt + 1, buf := buf, console := b.console ++ cputsBytes mem base buf idx }
  else { idx := idx, cnt := b.cnt + 1, buf := buf, console := b.console }

/-- `vcprintf` of the user library, with its buffer at `base` and what that holds at first: the
result, and the bytes on the console. A format that makes `vprintfmt` fault leaves characters in
the buffer. -/
def userVcprintf (mem : Word → Option (BitVec 8)) (base : Word) (buf : Nat → BitVec 8) (fuel : Nat)
    (fmt : String) (args : List Word) : Except Stop Word × List (BitVec 8) :=
  let (r, calls) := putchCalls mem fuel fmt args
  let b := calls.foldl (userPutch mem base) { idx := 0, cnt := 0, buf := buf, console := [] }
  match r with
  | .error e => (.error e, b.console)
  | .ok () => (.ok b.cnt, b.console ++ cputsBytes mem base b.buf b.idx)

/-- The kernel's count, and what is on the console so far. -/
structure KernPrint where
  cnt : Word
  console : List (BitVec 8)

/-- `putch` of the kernel. `*cnt++` reads the count and moves the local pointer to it. -/
def kernPutch (k : KernPrint) (ch : Int) : KernPrint :=
  { k with console := k.console ++ [byteOf ch] }

/-- `vcprintf` of the kernel. -/
def kernVcprintf (mem : Word → Option (BitVec 8)) (fuel : Nat) (fmt : String) (args : List Word) :
    Except Stop Word × List (BitVec 8) :=
  let (r, calls) := putchCalls mem fuel fmt args
  let k := calls.foldl kernPutch { cnt := 0, console := [] }
  (r.map fun _ => k.cnt, k.console)

/-! ## One call of `sys_cputs` -/

variable {mem : Word → Option (BitVec 8)} {base : Word} {buf : Nat → BitVec 8}

theorem byteOf_charOf (b : BitVec 8) : byteOf (charOf b) = b := BitVec.ofInt_toInt

/-- With the length as the precision, the string loop prints what stands before the first zero
byte, and stops. -/
theorem putString_takeWhile (l : List (BitVec 8)) (p : Word) (width : Int) (t : Printed)
    (hmem : ∀ i (h : i < l.length), mem (p + BitVec.ofNat 32 i) = some l[i])
    (hend : (mem (p + BitVec.ofNat 32 l.length)).isSome) :
    ∃ width' reads, width' ≤ width ∧
      putString mem false (l.length + 1) (.user p) l.length width t =
        (.ok width', ⟨reads, t.out ++ (l.takeWhile (· ≠ 0)).map charOf⟩) := by
  induction l generalizing p width t with
  | nil =>
    obtain ⟨b, hb⟩ := Option.isSome_iff_exists.1 hend
    rw [List.length_nil, add_ofNat_zero] at hb
    refine ⟨width, t.reads ++ [p], le_rfl, ?_⟩
    rw [List.length_nil, putString_succ, hb]
    simp
  | cons c l ih =>
    have hc : mem p = some c := by
      have := hmem 0 (by simp)
      rwa [add_ofNat_zero] at this
    rw [List.length_cons, putString_succ, hc]
    by_cases h0 : c = 0
    · refine ⟨width, t.reads ++ [p], le_rfl, ?_⟩
      simp [h0]
    · have hrest : ∀ i (h : i < l.length), mem (p + 1#32 + BitVec.ofNat 32 i) = some l[i] := by
        intro i h
        rw [add_one_add]
        exact hmem (i + 1) (by simpa using h)
      obtain ⟨width', reads, hle, hrun⟩ := ih (p + 1#32) (width - 1)
        ⟨t.reads ++ [p], t.out ++ [charOf c]⟩ hrest (by rwa [add_one_add])
      refine ⟨width', reads, by omega, ?_⟩
      have hneg : ¬ ((l.length + 1 : ℕ) : Int) < 0 := by omega
      have hprec : ((l.length + 1 : ℕ) : Int) - 1 = l.length := by omega
      have htake : (c :: l).takeWhile (· ≠ 0) = c :: l.takeWhile (· ≠ 0) :=
        List.takeWhile_cons_of_pos (decide_eq_true h0)
      simp only [h0, if_false, if_neg hneg, hprec, Bool.false_eq_true, false_and]
      rw [hrun, htake, List.map_cons, List.append_assoc]
      rfl

/-- `sys_cputs` of a readable string returns, and prints what stands before the first zero byte. -/
theorem cputs_eq_takeWhile (l : List (BitVec 8)) {s : Word} (hs : s ≠ 0) (hlen : l.length < 2 ^ 31)
    (hmem : ∀ i (h : i < l.length), mem (s + BitVec.ofNat 32 i) = some l[i])
    (hend : (mem (s + BitVec.ofNat 32 l.length)).isSome) :
    ∃ reads, cputs mem (l.length + 1) s (BitVec.ofNat 32 l.length) {} =
      (.ok (), ⟨reads, (l.takeWhile (· ≠ 0)).map charOf⟩) := by
  have hprec : (BitVec.ofNat 32 l.length).toInt = l.length := by
    rw [BitVec.toInt_eq_toNat_of_lt (by rw [BitVec.toNat_ofNat]; omega), BitVec.toNat_ofNat]
    omega
  obtain ⟨width', reads, hle, hrun⟩ := putString_takeWhile l s 0 {} hmem hend
  refine ⟨reads, ?_⟩
  have hpad : width'.toNat = 0 := by omega
  rw [cputs_eq, if_neg hs, formatString, if_neg (by simp), hprec]
  simp only [pure_bind, bind_assoc]
  have hbind : ∀ f : Int → Print Unit,
      (putString mem false (l.length + 1) (.user s) l.length 0 >>= f) {} =
        f width' ⟨reads, (l.takeWhile (· ≠ 0)).map charOf⟩ := by
    intro f
    simp only [bind, ExceptT.bind, ExceptT.mk, StateT.bind, hrun]
    rfl
  rw [hbind, hpad]
  rfl

/-- The buffer is somewhere in memory, not at `NULL`. -/
structure BufAt (base : Word) : Prop where
  pos : base ≠ 0
  fits : base.toNat + 256 ≤ 2 ^ 32

/-- **What `sys_cputs` prints of the buffer.** -/
theorem cputsBytes_eq (hbase : BufAt base) (l : List (BitVec 8)) (hlen : l.length < 256)
    (hbuf : ∀ i (h : i < l.length), buf i = l[i]) :
    cputsBytes mem base buf l.length = l.takeWhile (· ≠ 0) := by
  have hload : ∀ i < 256, withBuf mem base buf (base + BitVec.ofNat 32 i) = some (buf i) := by
    intro i hi
    have hfits := hbase.fits
    have hN : (base + BitVec.ofNat 32 i).toNat = base.toNat + i := by
      rw [BitVec.toNat_add, BitVec.toNat_ofNat]
      omega
    rw [withBuf, hN, if_pos (by omega), Nat.add_sub_cancel_left]
  have hstr : ∀ i (h : i < l.length), withBuf mem base buf (base + BitVec.ofNat 32 i) = some l[i] :=
    fun i hi => by rw [hload i (by omega), hbuf i hi]
  obtain ⟨reads, hrun⟩ := cputs_eq_takeWhile l hbase.pos (by omega) hstr (by rw [hload _ hlen]; rfl)
  rw [cputsBytes, hrun, List.map_map]
  exact List.map_id'' byteOf_charOf _

/-! ## The user library -/

/-- The buffer holds the characters since the last chunk, and the console has no zero byte. Without
a zero byte in the calls so far, nothing is lost. -/
structure Buffered (calls : List Int) (b : Printbuf) (pending : List (BitVec 8)) : Prop where
  idx : b.idx = pending.length
  room : pending.length < 255
  rest : pending.length = calls.length % 255
  buf : ∀ i (h : i < pending.length), b.buf i = pending[i]
  cnt : b.cnt = BitVec.ofNat 32 calls.length
  nonzero : ∀ c ∈ b.console, c ≠ 0
  kept : (∀ c ∈ calls, byteOf c ≠ 0) → b.console ++ pending = calls.map byteOf

theorem Buffered.init (buf : Nat → BitVec 8) :
    Buffered [] { idx := 0, cnt := 0, buf := buf, console := [] } [] :=
  ⟨rfl, by decide, rfl, fun _ h => absurd h (Nat.not_lt_zero _), rfl,
    fun _ h => absurd h List.not_mem_nil, fun _ => rfl⟩

theorem takeWhile_nonzero {l : List (BitVec 8)} (h : ∀ c ∈ l, c ≠ 0) : l.takeWhile (· ≠ 0) = l :=
  List.takeWhile_eq_self_iff.2 fun c hc => decide_eq_true (h c hc)

theorem nonzero_of_mem_takeWhile {l : List (BitVec 8)} {c : BitVec 8}
    (h : c ∈ l.takeWhile (· ≠ 0)) : c ≠ 0 := by
  have hc := List.mem_takeWhile_imp h
  exact of_decide_eq_true hc

theorem Buffered.pending_nonzero {calls : List Int} {b : Printbuf} {pending : List (BitVec 8)}
    (h : Buffered calls b pending) (hcalls : ∀ c ∈ calls, byteOf c ≠ 0) : ∀ c ∈ pending, c ≠ 0 := by
  intro c hc
  have hmem : c ∈ calls.map byteOf := by
    rw [← h.kept hcalls]
    exact List.mem_append_right _ hc
  obtain ⟨ch, hch, rfl⟩ := List.mem_map.1 hmem
  exact hcalls ch hch

theorem Buffered.buf_push {calls : List Int} {b : Printbuf} {pending : List (BitVec 8)}
    (h : Buffered calls b pending) (c : BitVec 8) (i : Nat) (hi : i < (pending ++ [c]).length) :
    Function.update b.buf b.idx c i = (pending ++ [c])[i] := by
  rw [List.length_append, List.length_singleton] at hi
  by_cases hlast : i = pending.length
  · subst hlast
    rw [h.idx, Function.update_self, List.getElem_concat_length rfl]
  · rw [h.idx, Function.update_of_ne hlast, h.buf i (by omega), List.getElem_append_left]

theorem Buffered.putch (hbase : BufAt base) {calls : List Int} {b : Printbuf}
    {pending : List (BitVec 8)} (h : Buffered calls b pending) (ch : Int) :
    ∃ pending', Buffered (calls ++ [ch]) (userPutch mem base b ch) pending' := by
  have hidx := h.idx
  have hroom := h.room
  have hrest := h.rest
  have hlen : (pending ++ [byteOf ch]).length = b.idx + 1 := by rw [List.length_append, hidx]; rfl
  have hcalls : (calls ++ [ch]).length = calls.length + 1 := by rw [List.length_append]; rfl
  have hcnt : b.cnt + 1 = BitVec.ofNat 32 (calls ++ [ch]).length := by
    rw [h.cnt, hcalls, BitVec.ofNat_add]
    rfl
  have hkept : (∀ c ∈ calls ++ [ch], byteOf c ≠ 0) →
      b.console ++ (pending ++ [byteOf ch]) = (calls ++ [ch]).map byteOf := by
    intro hall
    rw [← List.append_assoc, h.kept fun c hc => hall c (List.mem_append_left _ hc), List.map_append]
    rfl
  by_cases hfull : b.idx + 1 = 256 - 1
  · -- The chunk is printed, up to its first zero byte.
    have hout : cputsBytes mem base (Function.update b.buf b.idx (byteOf ch)) (b.idx + 1) =
        (pending ++ [byteOf ch]).takeWhile (· ≠ 0) := by
      rw [← hlen]
      exact cputsBytes_eq hbase _ (by omega) (h.buf_push (byteOf ch))
    refine ⟨[], ?_⟩
    rw [userPutch, if_pos hfull, hout]
    refine ⟨rfl, by decide, by rw [hcalls, List.length_nil]; omega,
      fun _ hi => absurd hi (Nat.not_lt_zero _), hcnt, fun c hc => ?_, fun hall => ?_⟩
    · rcases List.mem_append.1 hc with hc | hc
      · exact h.nonzero c hc
      · exact nonzero_of_mem_takeWhile hc
    · have hnz : ∀ c ∈ pending ++ [byteOf ch], c ≠ 0 := by
        intro c hc
        rcases List.mem_append.1 hc with hc | hc
        · exact h.pending_nonzero (fun c hc => hall c (List.mem_append_left _ hc)) c hc
        · rw [List.mem_singleton.1 hc]
          exact hall ch (List.mem_append_right _ (List.mem_singleton.2 rfl))
      rw [takeWhile_nonzero hnz, List.append_nil]
      exact hkept hall
  · refine ⟨pending ++ [byteOf ch], ?_⟩
    rw [userPutch, if_neg hfull]
    exact ⟨hlen.symm, by
      omega, by rw [hcalls]; omega, h.buf_push (byteOf ch), hcnt, h.nonzero, hkept⟩

theorem Buffered.foldl (hbase : BufAt base) {calls : List Int} {b : Printbuf}
    {pending : List (BitVec 8)} (h : Buffered calls b pending) (more : List Int) :
    ∃ pending', Buffered (calls ++ more) (more.foldl (userPutch mem base) b) pending' := by
  induction more generalizing calls b pending with
  | nil => exact ⟨pending, by rwa [List.append_nil]⟩
  | cons ch more ih =>
    obtain ⟨pending', h'⟩ := h.putch hbase ch
    obtain ⟨pending'', h''⟩ := ih h'
    exact ⟨pending'', by rwa [List.append_assoc] at h''⟩

theorem buffered_calls (mem : Word → Option (BitVec 8)) (hbase : BufAt base) (buf : Nat → BitVec 8)
    (calls : List Int) :
    ∃ pending, Buffered calls (calls.foldl (userPutch mem base)
      { idx := 0, cnt := 0, buf := buf, console := [] }) pending :=
  (Buffered.init buf).foldl hbase calls

section results

variable (fuel : Nat) (fmt : String) (args : List Word)

/-- The bytes on the console are the characters `vprintfmt` passed to `putch`. -/
def ConsoleFaithful (mem : Word → Option (BitVec 8)) (base : Word) (buf : Nat → BitVec 8)
    (fuel : Nat) (fmt : String) (args : List Word) : Prop :=
  (userVcprintf mem base buf fuel fmt args).2 = (putchCalls mem fuel fmt args).2.map byteOf

/-- **User console output is faithful exactly if no character is a zero byte** and, should
`vprintfmt` not return, the buffer is empty. -/
theorem user_cprintf_faithful_iff (mem : Word → Option (BitVec 8)) (hbase : BufAt base)
    (buf : Nat → BitVec 8) :
    ConsoleFaithful mem base buf fuel fmt args ↔
      (∀ c ∈ (putchCalls mem fuel fmt args).2, byteOf c ≠ 0) ∧
        ((putchCalls mem fuel fmt args).1 = .ok () ∨
          (putchCalls mem fuel fmt args).2.length % 255 = 0) := by
  unfold ConsoleFaithful userVcprintf
  rcases hrun : putchCalls mem fuel fmt args with ⟨r, calls⟩
  obtain ⟨pending, h⟩ := buffered_calls mem hbase buf calls
  dsimp only
  generalize calls.foldl (userPutch mem base) { idx := 0, cnt := 0, buf := buf, console := [] } =
    b at h ⊢
  -- What is printed has no zero byte.
  have hzero : ∀ out, (∀ c ∈ out, c ≠ 0) → out = calls.map byteOf → ∀ c ∈ calls, byteOf c ≠ 0 :=
    fun out hnz heq c hc => hnz _ (heq ▸ List.mem_map_of_mem hc)
  cases r with
  | error e =>
    simp only [reduceCtorEq, false_or]
    constructor
    · intro heq
      have hall := hzero _ h.nonzero heq
      refine ⟨hall, ?_⟩
      have hkept := h.kept hall
      rw [← heq, List.append_right_eq_self] at hkept
      rw [← h.rest, hkept, List.length_nil]
    · rintro ⟨hall, hrest⟩
      rw [← h.kept hall, List.length_eq_zero_iff.1 (h.rest.trans hrest), List.append_nil]
  | ok =>
    have hout : cputsBytes mem base b.buf b.idx = pending.takeWhile (· ≠ 0) := by
      rw [h.idx]
      exact cputsBytes_eq hbase pending (h.room.trans (by decide)) h.buf
    simp only [hout, true_or, and_true]
    constructor
    · refine hzero _ fun c hc => ?_
      rcases List.mem_append.1 hc with hc | hc
      · exact h.nonzero c hc
      · exact nonzero_of_mem_takeWhile hc
    · intro hall
      rw [takeWhile_nonzero (h.pending_nonzero hall)]
      exact h.kept hall

/-! ## The two versions -/

theorem foldl_kernPutch (k : KernPrint) (calls : List Int) :
    calls.foldl kernPutch k = { k with console := k.console ++ calls.map byteOf } := by
  induction calls generalizing k with
  | nil => simp
  | cons ch calls ih => simp [kernPutch, ih]

/-- Both versions of `vcprintf` return the number of characters `vprintfmt` passes to `putch`, and
the kernel puts these on the console. -/
def VersionsAgree (mem : Word → Option (BitVec 8)) (base : Word) (buf : Nat → BitVec 8) (fuel : Nat)
    (fmt : String) (args : List Word) : Prop :=
  (kernVcprintf mem fuel fmt args).2 = (putchCalls mem fuel fmt args).2.map byteOf ∧
    ∃ kern user : Word, (kernVcprintf mem fuel fmt args).1 = .ok kern ∧
      (userVcprintf mem base buf fuel fmt args).1 = .ok user ∧
      kern.toInt = (putchCalls mem fuel fmt args).2.length ∧
      user.toInt = (putchCalls mem fuel fmt args).2.length

/-- **The two versions of `vcprintf` agree exactly if there is nothing to print.** -/
theorem vcprintf_agree_iff (mem : Word → Option (BitVec 8)) (hbase : BufAt base)
    (buf : Nat → BitVec 8) :
    VersionsAgree mem base buf fuel fmt args ↔
      (putchCalls mem fuel fmt args).1 = .ok () ∧ (putchCalls mem fuel fmt args).2 = [] := by
  unfold VersionsAgree userVcprintf kernVcprintf
  rcases hrun : putchCalls mem fuel fmt args with ⟨r, calls⟩
  obtain ⟨pending, h⟩ := buffered_calls mem hbase buf calls
  dsimp only
  generalize calls.foldl (userPutch mem base) { idx := 0, cnt := 0, buf := buf, console := [] } =
    b at h ⊢
  rw [foldl_kernPutch, List.nil_append]
  constructor
  · rintro ⟨-, kern, user, hkern, -, hlen, -⟩
    cases r with
    | error e => cases hkern
    | ok =>
      -- The kernel's count is still zero.
      obtain rfl : 0 = kern := Except.ok.inj hkern
      have hzero : calls.length = 0 := Int.ofNat.inj (hlen.symm.trans (by rfl))
      exact ⟨rfl, List.length_eq_zero_iff.1 hzero⟩
  · rintro ⟨rfl, rfl⟩
    exact ⟨rfl, 0, b.cnt, rfl, rfl, rfl, by rw [h.cnt]; rfl⟩

end results

/-- Memory with the string `hi` at `0x1000` and zeros elsewhere. -/
def hiMem (a : Word) : Option (BitVec 8) :=
  some (if a = 0x1000#32 then 104#8 else if a = 0x1001#32 then 105#8 else 0#8)

theorem bufAt_stack : BufAt 0xeebfdd00#32 := ⟨by decide, by decide⟩

theorem user_cprintf_faithful_hi :
    ConsoleFaithful hiMem 0xeebfdd00#32 (fun _ => 0) 5 "%s %d\n" [0x1000#32, 7#32] ↔
      (∀ c ∈ (putchCalls hiMem 5 "%s %d\n" [0x1000#32, 7#32]).2, byteOf c ≠ 0) ∧
        ((putchCalls hiMem 5 "%s %d\n" [0x1000#32, 7#32]).1 = .ok () ∨
          (putchCalls hiMem 5 "%s %d\n" [0x1000#32, 7#32]).2.length % 255 = 0) :=
  user_cprintf_faithful_iff 5 _ _ hiMem bufAt_stack _

/-- `cprintf("%cab", 0)` prints nothing at all. -/
theorem user_cprintf_loses_chunk :
    (putchCalls hiMem 5 "%cab" [0#32]) = (.ok (), [0, 97, 98]) ∧
      (userVcprintf hiMem 0xeebfdd00#32 (fun _ => 0) 5 "%cab" [0#32]).2 = [] ∧
      ¬ ConsoleFaithful hiMem 0xeebfdd00#32 (fun _ => 0) 5 "%cab" [0#32] := by
  have hcalls : (putchCalls hiMem 5 "%cab" [0#32]) = (.ok (), [0, 97, 98]) := by rfl
  have hout : (userVcprintf hiMem 0xeebfdd00#32 (fun _ => 0) 5 "%cab" [0#32]).2 = [] := by rfl
  refine ⟨hcalls, hout, fun hf => ?_⟩
  rw [ConsoleFaithful, hout, hcalls] at hf
  cases hf

theorem vcprintf_agree_empty : VersionsAgree hiMem 0xeebfdd00#32 (fun _ => 0) 5 "" [] ↔
    (putchCalls hiMem 5 "" []).1 = .ok () ∧ (putchCalls hiMem 5 "" []).2 = [] :=
  vcprintf_agree_iff 5 _ _ hiMem bufAt_stack _

/-- `cprintf("hi")` returns 2 in the user library and 0 in the kernel. -/
theorem vcprintf_disagree :
    (kernVcprintf hiMem 5 "hi" []) = (.ok 0#32, [104#8, 105#8]) ∧
      (userVcprintf hiMem 0xeebfdd00#32 (fun _ => 0) 5 "hi" []) = (.ok 2#32, [104#8, 105#8]) ∧
      ¬ VersionsAgree hiMem 0xeebfdd00#32 (fun _ => 0) 5 "hi" [] := by
  have hkern : (kernVcprintf hiMem 5 "hi" []) = (.ok 0#32, [104#8, 105#8]) := by rfl
  refine ⟨hkern, by rfl, ?_⟩
  rintro ⟨-, kern, user, hk, -, hlen, -⟩
  rw [hkern] at hk
  obtain rfl : 0#32 = kern := Except.ok.inj hk
  have hcalls : (putchCalls hiMem 5 "hi" []).2 = [104, 105] := by rfl
  rw [hcalls] at hlen
  exact absurd hlen (by decide)

end Jos
