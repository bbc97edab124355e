/-! Powers of two and of ten, and the bounds of machine words. -/
namespace BatchExport

def twoTo (n : Nat) : Nat := Nat.pow 2 n

def tenTo (n : Nat) : Nat := Nat.pow 10 n

/-- The largest number in 64 bits. -/
def maxWord : Nat := twoTo 64 - 1

end BatchExport
