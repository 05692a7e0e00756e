import Xinu.System.CString
import Xinu.System.Memory
import Mathlib.Logic.Function.Basic

/-!
# NVRAM settings

`nvram.c`, except for how the flash is read and written: `nvramInit` is given the settings block and
`nvramCommit` gives the image that it writes. `memget` and `memfree` succeed.
-/

namespace Xinu
open Lib (Byte)

abbrev NVRAM_MAGIC : BitVec 32 := 0x48534c46
abbrev NVRAM_SIZE : Nat := 0x8000
abbrev NVRAM_NHASH : Nat := 256
abbrev NVRAM_STRMAX : Nat := 1024
abbrev NVRAM_CRC_INIT : Byte := 0xFF
abbrev NVRAM_CRC_MASK : BitVec 32 := 0xFF

def nvram_crc_tab : List Byte := [
    0x00, 0xF7, 0xB9, 0x4E, 0x25, 0xD2, 0x9C, 0x6B, 0x4A, 0xBD, 0xF3, 0x04, 0x6F, 0x98, 0xD6, 0x21,
    0x94, 0x63, 0x2D, 0xDA, 0xB1, 0x46, 0x08, 0xFF, 0xDE, 0x29, 0x67, 0x90, 0xFB, 0x0C, 0x42, 0xB5,
    0x7F, 0x88, 0xC6, 0x31, 0x5A, 0xAD, 0xE3, 0x14, 0x35, 0xC2, 0x8C, 0x7B, 0x10, 0xE7, 0xA9, 0x5E,
    0xEB, 0x1C, 0x52, 0xA5, 0xCE, 0x39, 0x77, 0x80, 0xA1, 0x56, 0x18, 0xEF, 0x84, 0x73, 0x3D, 0xCA,
    0xFE, 0x09, 0x47, 0xB0, 0xDB, 0x2C, 0x62, 0x95, 0xB4, 0x43, 0x0D, 0xFA, 0x91, 0x66, 0x28, 0xDF,
    0x6A, 0x9D, 0xD3, 0x24, 0x4F, 0xB8, 0xF6, 0x01, 0x20, 0xD7, 0x99, 0x6E, 0x05, 0xF2, 0xBC, 0x4B,
    0x81, 0x76, 0x38, 0xCF, 0xA4, 0x53, 0x1D, 0xEA, 0xCB, 0x3C, 0x72, 0x85, 0xEE, 0x19, 0x57, 0xA0,
    0x15, 0xE2, 0xAC, 0x5B, 0x30, 0xC7, 0x89, 0x7E, 0x5F, 0xA8, 0xE6, 0x11, 0x7A, 0x8D, 0xC3, 0x34,
    0xAB, 0x5C, 0x12, 0xE5, 0x8E, 0x79, 0x37, 0xC0, 0xE1, 0x16, 0x58, 0xAF, 0xC4, 0x33, 0x7D, 0x8A,
    0x3F, 0xC8, 0x86, 0x71, 0x1A, 0xED, 0xA3, 0x54, 0x75, 0x82, 0xCC, 0x3B, 0x50, 0xA7, 0xE9, 0x1E,
    0xD4, 0x23, 0x6D, 0x9A, 0xF1, 0x06, 0x48, 0xBF, 0x9E, 0x69, 0x27, 0xD0, 0xBB, 0x4C, 0x02, 0xF5,
    0x40, 0xB7, 0xF9, 0x0E, 0x65, 0x92, 0xDC, 0x2B, 0x0A, 0xFD, 0xB3, 0x44, 0x2F, 0xD8, 0x96, 0x61,
    0x55, 0xA2, 0xEC, 0x1B, 0x70, 0x87, 0xC9, 0x3E, 0x1F, 0xE8, 0xA6, 0x51, 0x3A, 0xCD, 0x83, 0x74,
    0xC1, 0x36, 0x78, 0x8F, 0xE4, 0x13, 0x5D, 0xAA, 0x8B, 0x7C, 0x32, 0xC5, 0xAE, 0x59, 0x17, 0xE0,
    0x2A, 0xDD, 0x93, 0x64, 0x0F, 0xF8, 0xB6, 0x41, 0x60, 0x97, 0xD9, 0x2E, 0x45, 0xB2, 0xFC, 0x0B,
    0xBE, 0x49, 0x07, 0xF0, 0x9B, 0x6C, 0x22, 0xD5, 0xF4, 0x03, 0x4D, 0xBA, 0xD1, 0x26, 0x68, 0x9F]

def strnlen (s : List Byte) (maxlen : Nat) : Nat := min s.length maxlen

namespace Nvram

abbrev SIZEOF_HEADER : Nat := 20
abbrev SIZEOF_TUPLE : Nat := 8

/-- `struct nvram_header`, whose magic is right. -/
structure Header where
  length : Nat
  crc_ver_init : BitVec 32
  config_refresh : BitVec 32
  config_ncdl : BitVec 32
  deriving DecidableEq

/-- A tuple, and what `memget` was asked for. -/
structure Tuple where
  pair : List Byte
  size : Nat
  deriving DecidableEq, Repr

end Nvram

open Nvram (Header Tuple)

structure Nvram where
  header : Header
  tuples : Nat → List Tuple
  -- for each tuple that has been removed, the bytes of the heap that were allocated and freed for it
  freed : List (Nat × Nat)
  -- the images that have been written
  images : List (List Byte)

namespace Nvram

def nvramHash (p : List Byte) : Nat :=
  (p.takeWhile (· ≠ 61)).foldl (fun sum ch => (13 * sum + ch.toNat) % WORD) 0 % NVRAM_NHASH

def nvramInsert (s : Nvram) (tuple : Tuple) : Nvram :=
  let index := nvramHash tuple.pair
  { s with
    tuples := Function.update s.tuples index (s.tuples index ++ [tuple])
    header := { s.header with length := s.header.length + (strnlen tuple.pair NVRAM_STRMAX + 1) } }

/-- The loop of `nvramInit` over the bytes that are left, each round of which takes one at least. -/
def initLoop : Nat → List Byte → Nvram → Nvram
  | 0, _, s => s
  | fuel + 1, rest, s =>
      if rest = [] then s
      else
        let pair := rest.takeWhile (· ≠ 0)
        let rest := rest.drop (pair.length + 1)
        if pair.length ≤ 0 then initLoop fuel rest s
        else initLoop fuel rest (s.nvramInsert ⟨pair, SIZEOF_TUPLE + pair.length⟩)

/-- `nvramInit`, on the block where the magic number has been looked for. -/
def nvramInit (image : List Byte) : Option Nvram :=
  if Lib.wordAt image 0 ≠ NVRAM_MAGIC then none
  else
    let nvram_length := (Lib.wordAt image 4).toNat
    let s :=
      { header := { length := SIZEOF_HEADER, crc_ver_init := Lib.wordAt image 8
                    config_refresh := Lib.wordAt image 12, config_ncdl := Lib.wordAt image 16 }
        tuples := fun _ => [], freed := [], images := [] }
    some (initLoop nvram_length ((image.take nvram_length).drop SIZEOF_HEADER) s)

def found (name : List Byte) (tuple : Tuple) : Bool :=
  strncmp (cstring name) (cstring tuple.pair) (strnlen name NVRAM_STRMAX) = 0

def nvramGet (s : Nvram) (name : List Byte) : Option (List Byte) :=
  ((s.tuples (nvramHash name)).find? (found name)).map fun tuple =>
    tuple.pair.drop (strnlen name NVRAM_STRMAX + 1)

def found' (name : List Byte) (tuple : Tuple) : Bool :=
  strncmp (cstring tuple.pair) (cstring name) (strnlen name NVRAM_STRMAX) = 0

def nvramUnset (s : Nvram) (name : List Byte) : Nvram × Int :=
  let index := nvramHash name
  match (s.tuples index).find? (found' name) with
  | none => (s, SYSERR)
  | some tuple =>
      let length := strnlen tuple.pair NVRAM_STRMAX + 1
      ({ s with
          tuples := Function.update s.tuples index ((s.tuples index).eraseP (found' name))
          header := { s.header with length := s.header.length - length }
          freed := s.freed ++ [(roundmb tuple.size, roundmb length)] }, OK)

def nvramSet (s : Nvram) (name value : List Byte) : Nvram × Int :=
  let length := SIZEOF_TUPLE + strnlen name NVRAM_STRMAX + 1 + strnlen value NVRAM_STRMAX
  let s := if s.nvramGet name ≠ none then (s.nvramUnset name).1 else s
  let pair := strncpy (cstring name) (strnlen name NVRAM_STRMAX) ++ [61] ++
    strncpy (cstring value) (strnlen value NVRAM_STRMAX)
  (s.nvramInsert ⟨pair, length⟩, OK)

def word (w : BitVec 32) : List Byte := (List.range 4).map (Lib.wordByte w)

def Header.bytes (h : Header) : List Byte :=
  word NVRAM_MAGIC ++ word (BitVec.ofNat 32 h.length) ++ word h.crc_ver_init ++ word h.config_refresh ++
    word h.config_ncdl

def body (s : Nvram) : List Byte :=
  (List.range NVRAM_NHASH).flatMap fun n =>
    (s.tuples n).flatMap fun tuple => tuple.pair.take (strnlen tuple.pair NVRAM_STRMAX) ++ [0]

def nvramCrc (header : List Byte) (length : Nat) : Byte :=
  ((header.take length).drop 9).foldl (fun crc ch => nvram_crc_tab.getD (crc ^^^ ch).toNat 0) NVRAM_CRC_INIT

def committed (s : Nvram) : Header :=
  let length := (s.header.length + 2 + 3) / 4 * 4
  let header := { s.header with length, crc_ver_init := s.header.crc_ver_init &&& ~~~ NVRAM_CRC_MASK }
  let buffer := header.bytes ++ s.body
  let buffer := buffer ++ List.replicate (length - buffer.length) 0
  { header with crc_ver_init := header.crc_ver_init ||| (nvramCrc buffer length).zeroExtend 32 }

def image (s : Nvram) : List Byte :=
  let buffer := s.committed.bytes ++ s.body
  buffer ++ List.replicate (s.committed.length - buffer.length) 0

def nvramCommit (s : Nvram) : Nvram :=
  { s with header := s.committed, images := s.images ++ [s.image] }

end Nvram

end Xinu
