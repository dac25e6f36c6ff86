import Aixos.Kernel.Types
import Aixos.Library.ByteMemory

/-!
# Formatted output

`aixos_snprintf` of `string.c`: `snprintf`. The format is the list of its characters up to the terminating zero, and the
arguments are a sequence of words of which `va_arg` takes the first. The buffer `digits` has 16 places; a call that
needs more of them has no result.
-/

namespace Aixos

/-- A character of the program. -/
def chr (c : Char) : UInt8 := UInt8.ofNat c.toNat

/-- The memory that `aixos_snprintf` writes to, and its variables `written` and `total`. -/
structure Output where
  mem : ByteMemory
  written : ℕ := 0
  total : Word := 0

/-- `if (written + 1U < size) str[written++] = ch; total++;` -/
def Output.put (str size : ℕ) (o : Output) (ch : UInt8) : Output :=
  let o := if o.written + 1 < size then
      { o with mem := o.mem.store (str + o.written) [ch], written := o.written + 1 }
    else o
  { o with total := o.total + 1 }

/-- `(char)(digit < 10U ? '0' + digit : 'A' + digit - 10U)` -/
def digitChar (digit : Word) : UInt8 :=
  UInt8.ofNat (if digit < 10 then 48 + digit else 65 + digit - 10).toNat

/-- The loop that takes the digits of `value`, while `digits` has room. The last one taken is the first of the list. -/
def digitsLoop (base : Word) : (room : ℕ) → (value : Word) → (digits : List UInt8) → Option (List UInt8)
  | 0, _, _ => none
  | room + 1, value, digits =>
    let digits := digitChar (value % base) :: digits
    let value := value / base
    if value ≠ 0 then digitsLoop base room value digits else some digits

/-- `digits`, from the last one on. -/
def number (negative : Bool) (value base : Word) : Option (List UInt8) :=
  match digitsLoop base 16 value [] with
  | none => none
  | some digits =>
    if negative then
      if digits.length < 16 then some (chr '-' :: digits) else none
    else some digits

/-- The loop of `aixos_snprintf`. -/
def snprintfLoop (str size : ℕ) : List UInt8 → (args : ℕ → Word) → Output → Option Output
  | [], _, o => some o
  | c :: format, args, o =>
    if c ≠ chr '%' then snprintfLoop str size format args (o.put str size c)
    else
      match format with
      | [] => snprintfLoop str size [] args (o.put str size (chr '%'))
      | d :: rest =>
        if d = chr '%' then snprintfLoop str size rest args (o.put str size (chr '%'))
        else if d = chr 'd' then
          let negative := decide ((args 0).toInt < 0)
          let value := if negative then BitVec.ofInt 32 (-(args 0).toInt) else args 0
          match number negative value 10 with
          | none => none
          | some digits => snprintfLoop str size rest (fun i => args (i + 1)) (digits.foldl (·.put str size) o)
        else if d = chr 'u' then
          match number false (args 0) 10 with
          | none => none
          | some digits => snprintfLoop str size rest (fun i => args (i + 1)) (digits.foldl (·.put str size) o)
        else if d = chr 'X' then
          match number false (args 0) 16 with
          | none => none
          | some digits => snprintfLoop str size rest (fun i => args (i + 1)) (digits.foldl (·.put str size) o)
        else snprintfLoop str size (d :: rest) args (o.put str size (chr '%'))

/-- `aixos_snprintf`: the memory afterwards, and what is returned. -/
def snprintf (mem : ByteMemory) (str size : ℕ) (format : List UInt8) (args : ℕ → Word) : Option (ByteMemory × Word) :=
  (snprintfLoop str size format args { mem }).map fun o =>
    (if size ≠ 0 then o.mem.store (str + if o.written < size then o.written else size - 1) [0] else o.mem, o.total)

end Aixos
