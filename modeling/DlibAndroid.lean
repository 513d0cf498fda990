import DlibAndroid.Frame.Agreement
import DlibAndroid.Frame.Geometry
import DlibAndroid.Frame.Coverage
import DlibAndroid.Detector.Footprint
import DlibAndroid.Detector.Rescale
import DlibAndroid.Detector.Strongest
import DlibAndroid.Predictor.Refused
import DlibAndroid.Jni.Rotate
import DlibAndroid.App.FaceFilter
import DlibAndroid.Codec.CompressStream
import DlibAndroid.Codec.Base64
import DlibAndroid.Detector.Suppression
import DlibAndroid.Predictor.Save
import DlibAndroid.Detector.Image
