import DspDispatch.Kit.Loop
import DspDispatch.Kit.MachineInt
import DspDispatch.Kit.Memory
import DspDispatch.Kit.LaneLoop
import DspDispatch.Kit.TapFilter
import DspDispatch.Kit.LruCache
import DspDispatch.Kit.Strided
import DspDispatch.Kit.Dft
import DspDispatch.Kit.Throwing
import DspDispatch.Kit.Logged
import DspDispatch.Kit.Feedback
import DspDispatch.Kit.Ownership
import DspDispatch.Kit.OrderStatistic
import DspDispatch.Kit.Text
import DspDispatch.Kit.Dict
import DspDispatch.Kit.LastWrite
import DspDispatch.Kit.Collect
import DspDispatch.Kit.Cells
import DspDispatch.Kit.MixedRadix
import DspDispatch.Kit.HalfComplex
import DspDispatch.Kit.OwnCells
import DspDispatch.Kit.Odometer
import DspDispatch.Kit.Scatter
import DspDispatch.Kit.Convolution
import DspDispatch.Kit.TrialDivision
import DspDispatch.Kit.SmoothSearch
import DspDispatch.Fir.Plan
import DspDispatch.Fir.Streaming
import DspDispatch.Fir.Portable
import DspDispatch.Fir.PortableStreaming
import DspDispatch.Fir.PortableBlocks
import DspDispatch.Fir.PortableComponents
import DspDispatch.Fir.PortableBounds
import DspDispatch.Fir.PortableInPlace
import DspDispatch.Fir.Ipp
import DspDispatch.Fir.IppStreaming
import DspDispatch.Fir.Cmsis
import DspDispatch.Fir.CmsisRefinement
import DspDispatch.Fir.Creation
import DspDispatch.Fir.StateSizes
import DspDispatch.Fir.Liquid
import DspDispatch.Fir.Answers
import DspDispatch.Fir.LiquidStreaming
import DspDispatch.Fft.Plan
import DspDispatch.Fft.PocketfftCache
import DspDispatch.Fft.Contract
import DspDispatch.Fft.Library
import DspDispatch.Fft.Armpl
import DspDispatch.Fft.Aocl
import DspDispatch.Fft.Mkl
import DspDispatch.Fft.Pocketfft
import DspDispatch.Fft.Cmsis
import DspDispatch.Fft.Backends
import DspDispatch.Fft.Reference
import DspDispatch.Fft.Narrowing
import DspDispatch.Fft.Vendor
import DspDispatch.Fft.Interchange
import DspDispatch.Fft.RoundTrip
import DspDispatch.Fft.InPlace
import DspDispatch.Fft.ReadOnly
import DspDispatch.Fft.AoclLengths
import DspDispatch.Fft.CmsisPacking
import DspDispatch.Fft.PocketfftCreation
import DspDispatch.Fft.PocketfftRuns
import DspDispatch.Pocketfft.Cmplx
import DspDispatch.Pocketfft.SinCos
import DspDispatch.Pocketfft.Sizes
import DspDispatch.Pocketfft.Butterflies
import DspDispatch.Pocketfft.Passes
import DspDispatch.Pocketfft.GeneralPass
import DspDispatch.Pocketfft.Factors
import DspDispatch.Pocketfft.Cfftp
import DspDispatch.Pocketfft.Bluestein
import DspDispatch.Plan.CleanFailure
import DspDispatch.Plan.InvalidArgument
import DspDispatch.Plan.FirInterchange
import DspDispatch.Plan.Dispatch
import DspDispatch.Bench.Percentile
import DspDispatch.Bench.Names
import DspDispatch.Bench.Results
import DspDispatch.Bench.Tables
import DspDispatch.Bench.Dashboard
import DspDispatch.Bench.Controls
import DspDispatch.Bench.Published
import DspDispatch.Pocketfft.Batches
import DspDispatch.Pocketfft.ComplexPlans
import DspDispatch.Pocketfft.RealButterflies
import DspDispatch.Pocketfft.RealPasses
import DspDispatch.Pocketfft.RealRows
import DspDispatch.Pocketfft.RealGeneralPass
import DspDispatch.Pocketfft.RealGeneralInverse
import DspDispatch.Pocketfft.Rfftp
import DspDispatch.Pocketfft.PocketfftR
import DspDispatch.Pocketfft.GeneralReal
import DspDispatch.Pocketfft.RealPlans
