namespace CacheUsage.Text

def hexadecimal (n : Nat) : String := String.ofList (Nat.toDigits 16 n)

end CacheUsage.Text
