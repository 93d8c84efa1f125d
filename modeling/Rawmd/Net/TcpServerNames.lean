import Rawmd.Net.TcpServer

/-!
# The names that a `TcpServer` gives its connections

The buffer of `newConnection` has room for 31 characters; two of them are `:` and `#`, so the
number of a connection is cut to `29 - length` digits, where `length` is that of `hostport_`.

    connName c = connName d ↔ the digits that are left agree             (connName_eq_iff)
    NamesDistinct s ↔ fewer than 10 ^ (29 - length) connections          (namesDistinct_iff)
-/

namespace Rawmd.TcpServer

open Printf

variable {s : TcpServer} {c d : Nat}

/-- The room for the digits. -/
def room (s : TcpServer) : Nat := 29 - s.hostport.length

theorem connName_eq (h : s.hostport.length ≤ 21) :
    s.connName c = s.name ++ ([':'] ++ s.hostport ++ ['#'] ++ (decimal c).take s.room) := by
  have hlen : ([':'] ++ s.hostport ++ ['#']).length = s.hostport.length + 2 := by
    simp only [List.length_append, List.length_singleton]
    omega
  rw [connName, snprintf, List.take_append, hlen, List.take_of_length_le (by omega), room]
  congr 3
  omega

theorem connName_eq_iff (h : s.hostport.length ≤ 21) :
    s.connName c = s.connName d ↔ (decimal c).take s.room = (decimal d).take s.room := by
  rw [connName_eq h, connName_eq h, List.append_cancel_left_eq, List.append_cancel_left_eq]

/-- No two of the connections created so far have the same name. -/
def NamesDistinct (s : TcpServer) : Prop :=
  ∀ c d, s.Created c → s.Created d → s.connName c = s.connName d → c = d

theorem take_decimal_of_lt {k n : Nat} (hk : 0 < k) (h : n < 10 ^ k) :
    (decimal n).take k = decimal n :=
  List.take_of_length_le ((length_decimal_le_iff hk).2 h)

/-- The first number that is cut has the digits of its tenth part. -/
theorem connName_pow (h : s.hostport.length ≤ 21) :
    s.connName (10 ^ s.room) = s.connName (10 ^ (s.room - 1)) := by
  have hroom : 8 ≤ s.room := by
    unfold room
    omega
  rw [connName_eq_iff h, take_decimal_pow (by omega)]
  symm
  exact take_decimal_of_lt (by omega) (Nat.pow_lt_pow_right (by decide) (by omega))

theorem namesDistinct_iff (h : s.hostport.length ≤ 21) :
    NamesDistinct s ↔ s.nextConnId - 1 < 10 ^ s.room := by
  have hroom : 8 ≤ s.room := by
    unfold room
    omega
  constructor
  · intro hd
    by_contra hlt
    have hone : 1 ≤ 10 ^ (s.room - 1) := Nat.one_le_pow _ _ (by decide)
    have hpow : 10 ^ (s.room - 1) < 10 ^ s.room := Nat.pow_lt_pow_right (by decide) (by omega)
    have heq := hd (10 ^ s.room) (10 ^ (s.room - 1)) ⟨by omega, by omega⟩ ⟨hone, by omega⟩
      (connName_pow h)
    omega
  · intro hlt c d hc hd heq
    obtain ⟨hc, hc'⟩ := hc
    obtain ⟨hd, hd'⟩ := hd
    rw [connName_eq_iff h, take_decimal_of_lt (by omega) (by omega),
      take_decimal_of_lt (by omega) (by omega)] at heq
    exact decimal_inj heq

end Rawmd.TcpServer
