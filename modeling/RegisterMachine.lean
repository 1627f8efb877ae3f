import RegisterMachine.Main
import RegisterMachine.Proofs.Acceptance
import RegisterMachine.Proofs.Batches
import RegisterMachine.Proofs.Changes
import RegisterMachine.Proofs.Children
import RegisterMachine.Proofs.Endings
import RegisterMachine.Proofs.Entry
import RegisterMachine.Proofs.Handover
import RegisterMachine.Proofs.Interrupts
import RegisterMachine.Session
import RegisterMachine.Shell.Folder
import RegisterMachine.Shell.Simulation
import RegisterMachine.Proofs.Halting
import RegisterMachine.Proofs.Objects
import RegisterMachine.Proofs.Layout
import RegisterMachine.Proofs.Numbering
import RegisterMachine.Proofs.Grouping
import RegisterMachine.Proofs.Quotes
import RegisterMachine.Proofs.Registers
import RegisterMachine.Proofs.Resolution
import RegisterMachine.Proofs.Literals
import RegisterMachine.Proofs.Doubles
import RegisterMachine.Proofs.Rounding
import RegisterMachine.Proofs.Coercions
import RegisterMachine.Proofs.Documents
import RegisterMachine.Proofs.Comparison
import RegisterMachine.Proofs.Paths
import RegisterMachine.Proofs.History
import RegisterMachine.Proofs.Cells
import RegisterMachine.Proofs.Widths
import RegisterMachine.Proofs.Contents
import RegisterMachine.Proofs.Shortest
import RegisterMachine.Proofs.Numerals
import RegisterMachine.Proofs.Outlines
import RegisterMachine.Proofs.Rows
import RegisterMachine.Proofs.Styles
import RegisterMachine.Proofs.Outside
import RegisterMachine.Proofs.Accesses
