import OpenNeon.Base.Codec
import OpenNeon.Base.Run

/-!
# Readers of byte strings

A reader takes a value from the front of a byte string and leaves the rest, or it
fails.  Two facts about a reader carry the proofs about a format: which bytes it
reads as which values, and that more bytes behind what it has read do not change
what it reads.
-/

namespace OpenNeon
namespace Base

open List

abbrev Reader (error alpha : Type) := StateT (List UInt8) (Except error) alpha

namespace Reader

variable {error alpha beta gamma : Type}

/-!
## Primitive readers
-/

/-- The next bytes; `short` is the failure, from the number of bytes left. -/
def take (n : Nat) (short : Nat -> error) : Reader error (List UInt8) :=
  fun input =>
    if input.length < n then .error (short input.length)
    else .ok (input.take n, input.drop n)

/-- The bytes before the next zero byte, which is dropped. -/
def cstring (missing : error) : List UInt8 -> Except error (List UInt8 × List UInt8)
  | [] => .error missing
  | b :: rest =>
    if b = 0 then .ok ([], rest)
    else (cstring missing rest).map (fun out => (b :: out.1, out.2))

def uint (width : Nat) (short : Nat -> error) : Reader error Nat :=
  beValue <$> take width short

variable (short : Nat -> error)

def u8 : Reader error UInt8 := UInt8.ofNat <$> uint 1 short
def u16 : Reader error UInt16 := UInt16.ofNat <$> uint 2 short
def u32 : Reader error UInt32 := UInt32.ofNat <$> uint 4 short
def u64 : Reader error UInt64 := UInt64.ofNat <$> uint 8 short

/-- A fixed number of values, each read with its index. -/
def many (p : Nat -> Reader error alpha) :
    (n i : Nat) -> Reader error { l : List alpha // l.length = n }
  | 0, _ => pure ⟨[], rfl⟩
  | n + 1, i => do
    let a <- p i
    let rest <- many p n (i + 1)
    return ⟨a :: rest.1, congrArg (· + 1) rest.2⟩

def check (x : Except error alpha) : Reader error alpha :=
  fun input => x.map (fun a => (a, input))

/-!
## What a reader reads
-/

/-- The reader takes exactly these bytes, and the value has the property. -/
def Reads (p : Reader error alpha) (bytes : List UInt8) (post : alpha -> Prop) : Prop :=
  exists a, post a ∧ forall rest, p (bytes ++ rest) = .ok (a, rest)

/-- More bytes behind the input stay unread. -/
def Extends (p : Reader error alpha) : Prop :=
  forall input a rest, p input = .ok (a, rest) ->
    forall more, p (input ++ more) = .ok (a, rest ++ more)

theorem bind_apply (p : Reader error alpha) (f : alpha -> Reader error beta)
    (input : List UInt8) : (p >>= f) input = p input >>= fun out => f out.1 out.2 := rfl

theorem map_apply (f : alpha -> beta) (p : Reader error alpha) (input : List UInt8) :
    (f <$> p) input = p input >>= fun out => .ok (f out.1, out.2) := rfl

theorem map_run_eq_ok_iff {f : alpha -> beta} {p : Reader error alpha}
    {input : List UInt8} {out : beta × List UInt8} :
    (f <$> p) input = .ok out <-> exists a, p input = .ok (a, out.2) ∧ f a = out.1 := by
  rw [map_apply, bind_eq_ok_iff]
  constructor
  · rintro ⟨⟨a, rest⟩, hp, hout⟩
    cases hout
    exact ⟨a, hp, rfl⟩
  · rintro ⟨a, hp, hout⟩
    exact ⟨(a, out.2), hp, by rw [hout]⟩

namespace Reads

variable {p : Reader error alpha} {bytes more : List UInt8} {post : alpha -> Prop}

theorem pure {a : alpha} (h : post a) : Reads (Pure.pure a : Reader error alpha) [] post :=
  ⟨a, h, fun _ => rfl⟩

theorem mono {post' : alpha -> Prop} (h : Reads p bytes post)
    (hpost : forall a, post a -> post' a) : Reads p bytes post' := by
  obtain ⟨a, ha, hp⟩ := h
  exact ⟨a, hpost a ha, hp⟩

variable {post' : beta -> Prop}

theorem bind {f : alpha -> Reader error beta} (h : Reads p bytes post)
    (hf : forall a, post a -> Reads (f a) more post') :
    Reads (p >>= f) (bytes ++ more) post' := by
  obtain ⟨a, ha, hp⟩ := h
  obtain ⟨b, hb, hfa⟩ := hf a ha
  refine ⟨b, hb, fun rest => ?_⟩
  rw [bind_apply, append_assoc, hp]
  exact hfa rest

section

variable {f : alpha -> beta} (h : Reads p bytes post) (hf : forall a, post a -> post' (f a))

include h hf

theorem map : Reads (f <$> p) bytes post' := by
  obtain ⟨a, ha, hp⟩ := h
  refine ⟨f a, hf a ha, fun rest => ?_⟩
  rw [map_apply, hp]
  rfl

theorem bind_pure : Reads (p >>= fun a => (Pure.pure (f a) : Reader error beta)) bytes post' := by
  rw [← append_nil bytes]
  exact h.bind (fun a ha => Reads.pure (hf a ha))

end

section

variable {x : alpha} (h : Reads p bytes (fun a => a = x))

include h

theorem seq {f : alpha -> Reader error beta} (hf : Reads (f x) more post') :
    Reads (p >>= f) (bytes ++ more) post' :=
  h.bind (fun _ ha => ha ▸ hf)

theorem seq_pure {f : alpha -> beta} (hf : post' (f x)) :
    Reads (p >>= fun a => (Pure.pure (f a) : Reader error beta)) bytes post' :=
  h.bind_pure (fun _ ha => ha ▸ hf)

end

theorem run_eq (h : Reads p bytes post) : exists a, post a ∧ p bytes = .ok (a, []) := by
  obtain ⟨a, ha, hp⟩ := h
  exact ⟨a, ha, by simpa using hp []⟩

theorem not_prefix (h : Reads p bytes post) (hext : Extends p) {pre : List UInt8}
    (hpre : pre <+: bytes) (hne : pre ≠ bytes) (out : alpha × List UInt8) :
    p pre ≠ .ok out := by
  intro hok
  obtain ⟨a, _, hrun⟩ := h.run_eq
  obtain ⟨suffix, rfl⟩ := hpre
  have hmore := hext _ _ _ hok suffix
  rw [hrun] at hmore
  simp only [Except.ok.injEq, Prod.mk.injEq] at hmore
  have hnil := append_eq_nil_iff.mp hmore.2.symm
  exact hne (by rw [hnil.2, append_nil])

end Reads

namespace Extends

theorem pure (a : alpha) : Extends (Pure.pure a : Reader error alpha) := by
  intro input b rest h more
  cases h
  rfl

theorem throw (e : error) : Extends (throw e : Reader error alpha) := by
  intro input b rest h
  cases h

variable {p : Reader error alpha}

theorem bind {f : alpha -> Reader error beta} (h : Extends p) (hf : forall a, Extends (f a)) :
    Extends (p >>= f) := by
  intro input b rest hrun more
  obtain ⟨out, hp, hout⟩ := bind_eq_ok_iff.mp hrun
  rw [bind_apply, h _ _ _ hp more]
  exact hf out.1 _ _ _ hout more

theorem map (h : Extends p) (f : alpha -> beta) : Extends (f <$> p) := by
  intro input b rest hrun more
  obtain ⟨out, hp, hout⟩ := bind_eq_ok_iff.mp hrun
  cases hout
  rw [map_apply, h _ _ _ hp more]
  rfl

theorem ite {c : Prop} [Decidable c] {q : Reader error alpha} (hp : Extends p) (hq : Extends q) :
    Extends (if c then p else q) := by
  split
  · exact hp
  · exact hq

theorem check (x : Except error alpha) : Extends (Reader.check x) := by
  intro input a rest h more
  cases x with
  | error e => cases h
  | ok b =>
    cases h
    rfl

theorem take (n : Nat) (short : Nat -> error) : Extends (Reader.take n short) := by
  intro input a rest h more
  unfold Reader.take at h ⊢
  split at h
  · cases h
  next hlength =>
    cases h
    have hle : n ≤ input.length := Nat.le_of_not_lt hlength
    rw [if_neg (by rw [length_append]; omega), take_append_of_le_length hle,
      drop_append_of_le_length hle]

theorem cstring (missing : error) :
    Extends (Reader.cstring missing : Reader error (List UInt8)) := by
  intro input
  induction input with
  | nil =>
    intro a rest h
    cases h
  | cons b input ih =>
    intro a rest h more
    rw [cons_append]
    unfold Reader.cstring at h ⊢
    split at h
    next hzero =>
      cases h
      rw [if_pos hzero]
    next hzero =>
      obtain ⟨out, hinner, hout⟩ := map_eq_ok_iff.mp h
      cases hout
      rw [if_neg hzero, ih _ _ hinner more]
      rfl

theorem uint (width : Nat) (short : Nat -> error) : Extends (Reader.uint width short) :=
  (Extends.take width short).map _

variable (short : Nat -> error)

theorem u8 : Extends (Reader.u8 short) := (uint 1 short).map _
theorem u16 : Extends (Reader.u16 short) := (uint 2 short).map _
theorem u32 : Extends (Reader.u32 short) := (uint 4 short).map _
theorem u64 : Extends (Reader.u64 short) := (uint 8 short).map _

theorem many {p : Nat -> Reader error alpha} (h : forall i, Extends (p i)) (n i : Nat) :
    Extends (Reader.many p n i) := by
  induction n generalizing i with
  | zero => exact Extends.pure _
  | succ n ih =>
    exact Extends.bind (h i) (fun _ => Extends.bind (ih (i + 1)) (fun _ => Extends.pure _))

end Extends

/-!
## Bytes of the primitive readers
-/

theorem reads_take (bytes : List UInt8) (short : Nat -> error) :
    Reads (take bytes.length short) bytes (fun a => a = bytes) := by
  refine ⟨bytes, rfl, fun rest => ?_⟩
  unfold take
  rw [if_neg (by simp), take_left, drop_left]

theorem reads_check {x : Except error alpha} {a : alpha} (h : x = .ok a) :
    Reads (check x) [] (fun b => b = a) := by
  subst h
  exact ⟨a, rfl, fun _ => rfl⟩

theorem reads_cstring {bytes : List UInt8} (h : (0 : UInt8) ∉ bytes) (missing : error) :
    Reads (cstring missing : Reader error (List UInt8)) (bytes ++ [0]) (fun a => a = bytes) := by
  refine ⟨bytes, rfl, fun rest => ?_⟩
  rw [append_assoc]
  induction bytes with
  | nil => rfl
  | cons b bytes ih =>
    obtain ⟨hb, hbytes⟩ := not_or.mp (mem_cons.not.mp h)
    rw [cons_append, cstring, if_neg (Ne.symm hb), ih hbytes]
    rfl

theorem reads_uint {width x : Nat} (h : x < 256 ^ width) (short : Nat -> error) :
    Reads (uint width short) (beBytes width x) (fun a => a = x) := by
  have htake := reads_take (beBytes width x) short
  rw [length_beBytes] at htake
  refine htake.map ?_
  rintro _ rfl
  exact beValue_beBytes_of_lt h

theorem reads_u8 (x : UInt8) (short : Nat -> error) :
    Reads (u8 short) (beBytes 1 x.toNat) (fun a => a = x) :=
  (reads_uint (by simpa using x.toNat_lt) short).map (by rintro _ rfl; simp)

theorem reads_u16 (x : UInt16) (short : Nat -> error) :
    Reads (u16 short) (beBytes 2 x.toNat) (fun a => a = x) :=
  (reads_uint (by simpa using x.toNat_lt) short).map (by rintro _ rfl; simp)

theorem reads_u32 (x : UInt32) (short : Nat -> error) :
    Reads (u32 short) (beBytes 4 x.toNat) (fun a => a = x) :=
  (reads_uint (by simpa using x.toNat_lt) short).map (by rintro _ rfl; simp)

theorem reads_u64 (x : UInt64) (short : Nat -> error) :
    Reads (u64 short) (beBytes 8 x.toNat) (fun a => a = x) :=
  (reads_uint (by simpa using x.toNat_lt) short).map (by rintro _ rfl; simp)

theorem reads_many {p : Nat -> Reader error beta} {write : alpha -> List UInt8}
    {same : alpha -> beta -> Prop} {xs : List alpha}
    (h : forall x, x ∈ xs -> forall i, Reads (p i) (write x) (same x)) (i : Nat) :
    Reads (many p xs.length i) (xs.flatMap write) (fun ys => List.Forall₂ same xs ys.1) := by
  induction xs generalizing i with
  | nil => exact Reads.pure List.Forall₂.nil
  | cons x xs ih =>
    refine (h x mem_cons_self i).bind (fun y hy => ?_)
    exact (ih (fun x' hx' => h x' (mem_cons_of_mem _ hx')) (i + 1)).bind_pure
      (fun _ hys => List.Forall₂.cons hy hys)

end Reader

end Base
end OpenNeon
