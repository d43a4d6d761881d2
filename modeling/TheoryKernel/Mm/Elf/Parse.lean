import TheoryKernel.Base.Exec
import TheoryKernel.Base.Word
import TheoryKernel.Lib.ByteMemory

/-! The headers of an executable file. -/

namespace TheoryKernel.Mm.Elf

open ByteMemory

/-- The contents of a file, which are shorter than half of all addresses. -/
structure FileData where
  length : Nat
  byte : Nat → BitVec 8
  fits : length < 2 ^ 63

/-- The reasons for which a file is no executable. -/
inductive ParseError where
  | invalid
  | notElf
  | badMachine
  | badType
  deriving DecidableEq, Repr

/-- A number of two bytes. -/
def load16 (bytes : Nat → BitVec 8) (off : Nat) : BitVec 16 := bytes (off + 1) ++ bytes off

/-- A number of four bytes. -/
def load32 (bytes : Nat → BitVec 8) (off : Nat) : BitVec 32 :=
  load16 bytes (off + 2) ++ load16 bytes off

/-- The header of the file. -/
structure Elf64Ehdr where
  eIdent : Nat → BitVec 8
  eType : BitVec 16
  eMachine : BitVec 16
  eEntry : BitVec 64
  ePhoff : BitVec 64
  ePhentsize : BitVec 16
  ePhnum : BitVec 16

/-- The header of a segment. -/
structure Elf64Phdr where
  pType : BitVec 32
  pFlags : BitVec 32
  pOffset : BitVec 64
  pVaddr : BitVec 64
  pFilesz : BitVec 64
  pMemsz : BitVec 64
  deriving DecidableEq

def ehdrSize : Nat := 64
def phdrSize : Nat := 56
def relaSize : Nat := 24

def etExec : BitVec 16 := 2
def etDyn : BitVec 16 := 3
def emX8664 : BitVec 16 := 62
def ptLoad : BitVec 32 := 1
def ptDynamic : BitVec 32 := 2
def ptInterp : BitVec 32 := 3
def ptPhdr : BitVec 32 := 6
def pfX : BitVec 32 := 1
def pfW : BitVec 32 := 2
def dtNull : BitVec 64 := 0
def dtPltrelsz : BitVec 64 := 2
def dtRela : BitVec 64 := 7
def dtRelasz : BitVec 64 := 8
def dtRelaent : BitVec 64 := 9
def dtJmprel : BitVec 64 := 23

/-- The header of a file that is long enough to have one. -/
def parseEhdr (data : FileData) : Except ParseError Elf64Ehdr :=
  if data.length < ehdrSize then .error .invalid
  else .ok {
    eIdent := data.byte
    eType := load16 data.byte 16
    eMachine := load16 data.byte 18
    eEntry := loadWord data.byte 24
    ePhoff := loadWord data.byte 32
    ePhentsize := load16 data.byte 54
    ePhnum := load16 data.byte 56 }

/-- Whether the file is an executable for this machine. -/
def validateHdr (hdr : Elf64Ehdr) : Except ParseError Unit :=
  if ¬ (hdr.eIdent 0 = 0x7F ∧ hdr.eIdent 1 = 0x45 ∧ hdr.eIdent 2 = 0x4C ∧ hdr.eIdent 3 = 0x46) ∨
      hdr.eIdent 4 ≠ 2 then .error .notElf
  else if hdr.eIdent 5 ≠ 1 then .error .notElf
  else if hdr.eMachine ≠ emX8664 then .error .badMachine
  else if hdr.eType ≠ etExec ∧ hdr.eType ≠ etDyn then .error .badType
  else .ok ()

/-- The header of a segment at a place of the file. -/
def readPhdr (data : FileData) (off : Nat) : Elf64Phdr where
  pType := load32 data.byte off
  pFlags := load32 data.byte (off + 4)
  pOffset := loadWord data.byte (off + 8)
  pVaddr := loadWord data.byte (off + 16)
  pFilesz := loadWord data.byte (off + 32)
  pMemsz := loadWord data.byte (off + 40)

/-- The place of the header of a segment. -/
def phdrOff (hdr : Elf64Ehdr) (index : Nat) : Nat :=
  wrapAdd hdr.ePhoff.toNat (index * hdr.ePhentsize.toNat)

/-- The header of a segment, which is read without a check if the end of it seems to fit. -/
def phdrAt (data : FileData) (hdr : Elf64Ehdr) (index : Nat) : Fallible ParseError Elf64Phdr :=
  let off := phdrOff hdr index
  if data.length < wrapAdd off phdrSize then .fail .invalid
  else if off + phdrSize ≤ data.length then .ok (readPhdr data off)
  else .fault .wildAccess

/-- The first segment of a given type. -/
def findHeader (data : FileData) (hdr : Elf64Ehdr) (pType : BitVec 32) :
    List Nat → Fallible ParseError (Option Elf64Phdr)
  | [] => .ok none
  | index :: rest => do
    let ph ← phdrAt data hdr index
    if ph.pType = pType then .ok (some ph) else findHeader data hdr pType rest

/-- The numbers of the segments. -/
def phIndices (hdr : Elf64Ehdr) : List Nat := List.range hdr.ePhnum.toNat

/-- The search for a segment that has the headers in it. -/
def coveringLoop (data : FileData) (hdr : Elf64Ehdr) (loadBias : Nat) :
    List Nat → Fallible ParseError Nat
  | [] => .fail .invalid
  | index :: rest => do
    let ph ← phdrAt data hdr index
    let phoff := hdr.ePhoff.toNat
    let phsize := hdr.ePhnum.toNat * hdr.ePhentsize.toNat
    let segEnd := wrapAdd ph.pOffset.toNat ph.pFilesz.toNat
    if ph.pType = ptLoad ∧ ph.pOffset.toNat ≤ phoff ∧ wrapAdd phoff phsize ≤ segEnd then
      .ok (wrapAdd (wrapAdd ph.pVaddr.toNat loadBias) (phoff - ph.pOffset.toNat))
    else coveringLoop data hdr loadBias rest

/-- The address at which the program finds the headers of its segments. -/
def phdrVaddrInImage (data : FileData) (hdr : Elf64Ehdr) (loadBias : Nat) :
    Fallible ParseError Nat := do
  match ← findHeader data hdr ptPhdr (phIndices hdr) with
  | some ph => .ok (wrapAdd ph.pVaddr.toNat loadBias)
  | none => coveringLoop data hdr loadBias (phIndices hdr)

/-- The lowest address of the segments that are loaded. -/
def minLoadLoop (data : FileData) (hdr : Elf64Ehdr) : List Nat → Nat → Fallible ParseError Nat
  | [], least => .ok least
  | index :: rest, least => do
    let ph ← phdrAt data hdr index
    minLoadLoop data hdr rest (if ph.pType = ptLoad then min least ph.pVaddr.toNat else least)

/-- The lowest address of the segments that are loaded, if there are any. -/
def minLoadVaddr (data : FileData) (hdr : Elf64Ehdr) : Fallible ParseError Nat := do
  let least ← minLoadLoop data hdr (phIndices hdr) (2 ^ 64 - 1)
  if least = 2 ^ 64 - 1 then .fail .invalid else .ok least

/-- A range of the file, which faults if it is reversed or reaches outside. -/
def fileSlice (data : FileData) (start stop : Nat) : Fallible ParseError (List (BitVec 8)) :=
  if start ≤ stop ∧ stop ≤ data.length then
    .ok ((List.range (stop - start)).map fun index => data.byte (start + index))
  else .fault .sliceOutOfRange

/-- The path of the program that is to load the file, if the file asks for one. -/
def extractInterpPath (data : FileData) (hdr : Elf64Ehdr) :
    Fallible ParseError (Option (List (BitVec 8))) := do
  match ← findHeader data hdr ptInterp (phIndices hdr) with
  | none => .ok none
  | some ph =>
    let start := ph.pOffset.toNat
    let stop := wrapAdd start ph.pFilesz.toNat
    if data.length < stop then .fail .invalid
    else
      let bytes ← fileSlice data start stop
      .ok (some (bytes.takeWhile (· ≠ 0)))

/-- Where the relocations of a file are. -/
structure DynamicInfo where
  rela : Nat
  relasz : Nat
  relaent : Nat
  jmprel : Nat
  pltrelsz : Nat
  deriving DecidableEq, Repr

/-- The effect of an entry of the dynamic section. -/
def DynamicInfo.record (info : DynamicInfo) (loadBias : Nat) (tag value : BitVec 64) :
    DynamicInfo :=
  if tag = dtRela then { info with rela := wrapAdd value.toNat loadBias }
  else if tag = dtRelasz then { info with relasz := value.toNat }
  else if tag = dtRelaent then { info with relaent := value.toNat }
  else if tag = dtJmprel then { info with jmprel := wrapAdd value.toNat loadBias }
  else if tag = dtPltrelsz then { info with pltrelsz := value.toNat }
  else info

/-- The entries of the dynamic section, read without a check; the budget stands for no end. -/
def dynamicLoop (data : FileData) (loadBias stop : Nat) :
    Nat → Nat → DynamicInfo → Fallible ParseError DynamicInfo
  | 0, _, _ => .fault .diverged
  | budget + 1, off, info =>
    if wrapAdd off 16 ≤ stop then
      if off + 16 ≤ data.length then
        let tag := loadWord data.byte off
        let value := loadWord data.byte (off + 8)
        if tag = dtNull then .ok info
        else dynamicLoop data loadBias stop budget (wrapAdd off 16) (info.record loadBias tag value)
      else .fault .wildAccess
    else .ok info

/-- The dynamic section of a file that has one. -/
def parseDynamic (data : FileData) (hdr : Elf64Ehdr) (loadBias : Nat) :
    Fallible ParseError (Option DynamicInfo) := do
  match ← findHeader data hdr ptDynamic (phIndices hdr) with
  | none => .ok none
  | some ph =>
    let start := ph.pOffset.toNat
    let stop := wrapAdd start ph.pFilesz.toNat
    if data.length < stop then .fail .invalid
    else
      let info ← dynamicLoop data loadBias stop (data.length + 1) start ⟨0, 0, relaSize, 0, 0⟩
      .ok (some info)

end TheoryKernel.Mm.Elf
