import Xinu.System.CString
import Xinu.System.Config

namespace Xinu
open Lib (Byte)

abbrev TAR_FILESIZE_LEN : Nat := 12
abbrev TAR_FILESIZE_BASE : Int := 8
abbrev TAR_FILENAME_LEN : Nat := 100

namespace Tar

def int (x : Int) : Int := Int.bmod x (2 ^ 32)

abbrev FILESIZE : Nat := TAR_FILENAME_LEN + 8 + 8 + 8
abbrev TYPE : Nat := FILESIZE + TAR_FILESIZE_LEN + 12 + 8 + 1 + TAR_FILENAME_LEN
abbrev USTAR_DATA : Nat := TYPE + 6 + 2 + 32 + 32 + 8 + 8 + 155 + 12
abbrev SIZEOF : Nat := USTAR_DATA + 1

/-- `roundtar`, on a value that has been converted to `uint`. -/
def roundtar (size : Int) : Nat :=
  ((511 + (size % 2 ^ 32).toNat) % 2 ^ 32) / 512 * 512

variable (mem : Int → Byte)

def tarFilesize (octalsize : Int) : Int :=
  (Lib.load mem octalsize (TAR_FILESIZE_LEN - 1)).foldl
    (fun size ch => int (int (size * TAR_FILESIZE_BASE) + (ch.toNat - 48))) 0

def next (pos : Int) : Int := int (pos + roundtar (SIZEOF + tarFilesize mem (pos + FILESIZE)))

def listLoop : Nat → Int → List (List Byte)
  | 0, _ => []
  | n + 1, pos =>
      if mem pos = 0 then []
      else strncpy (pointer mem pos) TAR_FILENAME_LEN :: listLoop n (next mem pos)

def tarListFiles (nentries : Nat) : List (List Byte) := listLoop mem nentries 0

/-- The loop of `tarGetFile`. `NULL` is `some none`, and `none` means that the fuel is used up. -/
def getLoop (filename : Nat → Byte) : Nat → Int → Option (Option Int)
  | 0, _ => none
  | fuel + 1, pos =>
      if mem pos = 0 then some none
      else if strncmp filename (pointer mem pos) TAR_FILENAME_LEN = 0 then some (some pos)
      else getLoop filename fuel (next mem pos)

def tarGetFile (fuel : Nat) (filename : Nat → Byte) : Option (Option Int) := getLoop mem filename fuel 0

/-- `tarGetData`, with what it puts in the buffer. -/
def tarGetData (file : Int) (size : Nat) : List Byte :=
  let data := file + TYPE
  let filesize := tarFilesize mem (file + FILESIZE)
  -- `"ustar"`
  let data :=
    if strncmp (pointer mem (file + TYPE)) (cstring [117, 115, 116, 97, 114]) 5 = 0 then file + USTAR_DATA
    else data
  let size := if (filesize % 2 ^ 32).toNat < size then (filesize % 2 ^ 32).toNat else size
  Lib.load mem data size

end Tar

end Xinu
